import Ong.Scl.AccessRightsSegments

/-!
# What the permissions decide

A permission whose holders cannot be checked ends the decision with an exception: the check of a
domain reads the host of its URI, which a domain without a scheme does not have.  And a permission
can be found for an entity that none of its holders names, by a segment that is only the beginning
of the name of a collection.

## Main results

* `checkHolders_of_not_fails`, `checkHolders_of_fails`: what the check of the holders ends with
* `finds_iff`: the permissions that are found are those that match, and those with a short segment
* `decides_of_condition`: the decision is as stated for every order of the permissions exactly when
  no permission fails, and none that only a short segment finds makes a difference
-/

namespace Ong.Scl

open Ong.M2M List

namespace SclResource

variable {env : Platform} {re : RequestingEntity} {flag : JString} {permissions : List Permission}
  {last u : JString} {result : Except Thrown Unit}

/-! ## Domains -/

/-- A domain is the beginning of the URI of the requesting entity, or its host the end of the other
one's. -/
def DomainMatches (env : Platform) (re : RequestingEntity) (domain : JString) : Prop :=
  ∃ uri, env.parseUri domain = some uri ∧
    ((uri.path.isSome = true ∧ domain <+: re.text) ∨
      ∃ host domainHost, re.host = some host ∧ uri.host = some domainHost ∧ domainHost <:+ host)

/-- A domain has no host to compare with the one of the requesting entity. -/
def DomainFails (env : Platform) (re : RequestingEntity) (domain : JString) : Prop :=
  ∃ uri, env.parseUri domain = some uri ∧ ¬ (uri.path.isSome = true ∧ domain <+: re.text) ∧
    re.host ≠ none ∧ uri.host = none

section Domains

variable {domain : JString} {domains : List JString}

theorem domainLoop_of_matches (h : DomainMatches env re domain) :
    domainLoop env re (domain :: domains) = .ok true := by
  obtain ⟨uri, huri, hpath | ⟨host, domainHost, hhost, hdomain, hsuffix⟩⟩ := h
  · simp [domainLoop, huri, hpath]
  · simp [domainLoop, huri, hhost, hdomain, hsuffix]

theorem domainLoop_of_fails (h : DomainFails env re domain) :
    domainLoop env re (domain :: domains) = .error .nullPointer := by
  obtain ⟨uri, huri, hpath, hhost, hdomain⟩ := h
  obtain ⟨host, hhost⟩ := Option.ne_none_iff_exists'.mp hhost
  have hif : ¬ (uri.path.isSome && domain.isPrefixOf re.text) = true := by simpa using hpath
  simp only [domainLoop, huri, hhost, hdomain]
  rw [if_neg hif]

theorem domainLoop_of_neither (hmatch : ¬ DomainMatches env re domain)
    (hfail : ¬ DomainFails env re domain) :
    domainLoop env re (domain :: domains) = domainLoop env re domains := by
  cases huri : env.parseUri domain with
  | none => simp only [domainLoop, huri]
  | some uri =>
    have hpath : ¬ (uri.path.isSome = true ∧ domain <+: re.text) :=
      fun hpath => hmatch ⟨uri, huri, .inl hpath⟩
    have hif : ¬ (uri.path.isSome && domain.isPrefixOf re.text) = true := by simpa using hpath
    simp only [domainLoop, huri]
    rw [if_neg hif]
    cases hhost : re.host with
    | none => rfl
    | some host =>
      cases hdomain : uri.host with
      | none => exact absurd ⟨uri, huri, hpath, by simp [hhost], hdomain⟩ hfail
      | some domainHost =>
        have hsuffix : ¬ domainHost.isSuffixOf host = true := fun hsuffix =>
          hmatch ⟨uri, huri, .inr ⟨host, domainHost, hhost, hdomain,
            isSuffixOf_iff_suffix.mp hsuffix⟩⟩
        exact if_neg hsuffix

/-- A domain fails, and none before it matches. -/
def DomainsFail (env : Platform) (re : RequestingEntity) : List JString → Prop
  | [] => False
  | domain :: domains =>
    DomainFails env re domain ∨ ¬ DomainMatches env re domain ∧ DomainsFail env re domains

theorem domainLoop_of_fail (h : DomainsFail env re domains) :
    domainLoop env re domains = .error .nullPointer := by
  induction domains with
  | nil => exact h.elim
  | cons domain domains ih =>
    by_cases hfail : DomainFails env re domain
    · exact domainLoop_of_fails hfail
    · obtain ⟨hmatch, hrest⟩ := h.resolve_left hfail
      rw [domainLoop_of_neither hmatch hfail, ih hrest]

theorem domainLoop_of_not_fail (h : ¬ DomainsFail env re domains) :
    ∃ b, domainLoop env re domains = .ok b ∧ (b = true ↔ ∃ d ∈ domains, DomainMatches env re d) := by
  induction domains with
  | nil => exact ⟨false, rfl, by simp⟩
  | cons domain domains ih =>
    obtain ⟨hfail, hrest⟩ := not_or.mp h
    by_cases hmatch : DomainMatches env re domain
    · exact ⟨true, domainLoop_of_matches hmatch, by simp [hmatch]⟩
    · obtain ⟨b, hb, hiff⟩ := ih fun hd => hrest ⟨hmatch, hd⟩
      refine ⟨b, (domainLoop_of_neither hmatch hfail).trans hb, ?_⟩
      rw [hiff, exists_mem_cons_iff]
      exact (or_iff_right hmatch).symm

end Domains

/-! ## Holders -/

/-- The domains of the holders. -/
def domainsOf (holders : PermissionHolders) : List JString := holders.domains.getD []

theorem checkDomains_eq (holders : PermissionHolders) :
    checkDomains env holders re = domainLoop env re (domainsOf holders) := by
  unfold checkDomains domainsOf
  cases holders.domains <;> rfl

/-- The last segment has to be decoded and cannot be. -/
def IdFails (env : Platform) (u : JString) : Prop :=
  ∃ seg last, Named u seg last ∧
    (samePrefix seg resApplications ∨ samePrefix seg resScls) ∧ env.decode last = none

theorem lookup_of_none (h : env.decode last = none) (ids : Option (List JString)) :
    lookup env last ids = .error .illegalArgument := by
  simp only [lookup, h]

theorem lookup_of_some {id : JString} (h : env.decode last = some id)
    (ids : Option (List JString)) : ∃ b, lookup env last ids = .ok b := by
  simp only [lookup, h]
  cases ids <;> exact ⟨_, rfl⟩

theorem checkAppIDorSclID_of_fails {holders : PermissionHolders} (h : IdFails env u) :
    checkAppIDorSclID env holders u = .error .illegalArgument := by
  obtain ⟨seg, last, hnamed, hseg, hdecode⟩ := h
  rw [checkAppIDorSclID_of_named hnamed, lookup_of_none hdecode, lookup_of_none hdecode]
  split
  · rfl
  · next happ => rw [if_pos (hseg.resolve_left happ)]

theorem checkAppIDorSclID_of_not_fails (holders : PermissionHolders) (h : ¬ IdFails env u) :
    ∃ b, checkAppIDorSclID env holders u = .ok b := by
  by_cases hnamed : ∃ seg last, Named u seg last
  · obtain ⟨seg, last, hnamed⟩ := hnamed
    rw [checkAppIDorSclID_of_named hnamed]
    cases hdecode : env.decode last with
    | none =>
      have hseg : ¬ (samePrefix seg resApplications = true ∨ samePrefix seg resScls = true) :=
        fun hseg => h ⟨seg, last, hnamed, hseg, hdecode⟩
      rw [if_neg fun happ => hseg (.inl happ), if_neg fun hscl => hseg (.inr hscl)]
      exact ⟨false, rfl⟩
    | some id =>
      split
      · exact lookup_of_some hdecode _
      · split
        · exact lookup_of_some hdecode _
        · exact ⟨false, rfl⟩
  · exact ⟨false, checkAppIDorSclID_of_not_named fun seg last hn => hnamed ⟨seg, last, hn⟩⟩

/-- The entity is named by its id, behind the whole name of the collection. -/
def NamesId (env : Platform) (holders : PermissionHolders) (u : JString) : Prop :=
  ∃ seg last id, Named u seg last ∧ env.decode last = some id ∧
    (equalsIgnoreCase seg resApplications ∧ id ∈ holders.applicationIDs.getD [] ∨
      equalsIgnoreCase seg resScls ∧ id ∈ holders.sclIDs.getD [])

/-- The holders of a permission match: all do, or one of the references, of the domains or of the
ids does. -/
def Matches (env : Platform) (re : RequestingEntity) (permission : Permission) : Prop :=
  ∃ holders, permission.permissionHolders = some holders ∧
    (holders.all = true ∨ re.text ∈ holders.holderRefs.getD [] ∨
      (∃ d ∈ domainsOf holders, DomainMatches env re d) ∨ NamesId env holders re.text)

/-- Only a short segment finds the permission. -/
def OnlyShort (env : Platform) (re : RequestingEntity) (permission : Permission) : Prop :=
  ¬ Matches env re permission ∧
    ∃ holders, permission.permissionHolders = some holders ∧ ShortSegment env holders re.text

/-- The check of the holders comes to a domain without a host before it matches, or to a last
segment that cannot be decoded. -/
def Fails (env : Platform) (re : RequestingEntity) (permission : Permission) : Prop :=
  ∃ holders, permission.permissionHolders = some holders ∧
    holders.all = false ∧ re.text ∉ holders.holderRefs.getD [] ∧
    (DomainsFail env re (domainsOf holders) ∨
      (∀ d ∈ domainsOf holders, ¬ DomainMatches env re d) ∧ IdFails env re.text)

section Found

variable {holders : PermissionHolders} {ids : Option (List JString)}

theorem checkHolderRefs_iff :
    checkHolderRefs holders u = true ↔ u ∈ holders.holderRefs.getD [] := by
  unfold checkHolderRefs
  cases holders.holderRefs <;> simp

theorem lookup_eq_true_iff :
    lookup env last ids = .ok true ↔ ∃ id, env.decode last = some id ∧ id ∈ ids.getD [] := by
  unfold lookup
  cases env.decode last with
  | none => simp
  | some id => cases ids <;> simp

theorem wholeSegment_iff : WholeSegment env holders u ↔ NamesId env holders u := by
  simp only [WholeSegment, NamesId, lookup_eq_true_iff, ← exists_and_left, ← exists_or]
  refine exists_congr fun seg => exists_congr fun last => exists_congr fun id => ?_
  tauto

/-- The check finds an id behind the whole name of its collection, and behind a short one. -/
theorem checkAppIDorSclID_iff : checkAppIDorSclID env holders u = .ok true ↔
    NamesId env holders u ∨ ShortSegment env holders u := by
  rw [← wholeSegment_iff]
  constructor
  · intro h
    by_cases hshort : ShortSegment env holders u
    · exact .inr hshort
    · exact .inl ((whole_of_not_short env holders u).mpr hshort h)
  · rintro (⟨seg, last, hnamed, hseg⟩ | ⟨seg, last, hnamed, hseg⟩) <;>
      rw [checkAppIDorSclID_of_named hnamed]
    · rcases hseg with ⟨happ, hlookup⟩ | ⟨hscl, hlookup⟩
      · rw [if_pos (equalsIgnoreCase_iff.mp happ).2, hlookup]
      · obtain ⟨hlen, hscl⟩ := equalsIgnoreCase_iff.mp hscl
        have happ : ¬ samePrefix seg resApplications := fun happ => by
          rw [eq_nil_of_samePrefix happ hscl] at hlen
          cases hlen
        rw [if_neg happ, if_pos hscl, hlookup]
    · rcases hseg with ⟨happ, -, hlookup⟩ | ⟨hscl, hpos, -, hlookup⟩
      · rw [if_pos happ, hlookup]
      · have happ : ¬ samePrefix seg resApplications := fun happ => by
          rw [eq_nil_of_samePrefix happ hscl] at hpos
          exact absurd hpos (Nat.lt_irrefl 0)
        rw [if_neg happ, if_pos hscl, hlookup]

end Found

/-- The check of the holders finds the permission. -/
def Finds (env : Platform) (re : RequestingEntity) (permission : Permission) : Prop :=
  checkHolders env re permission.permissionHolders = .ok true

section Holders

variable {permission : Permission}

/-- The check ends with an exception that carries no status. -/
theorem checkHolders_of_fails (h : Fails env re permission) :
    ∃ e, checkHolders env re permission.permissionHolders = .error e ∧ ∀ status, e ≠ .m2m status := by
  obtain ⟨holders, hholders, hall, hmem, hfail⟩ := h
  have hrefs : checkHolderRefs holders re.text = false := by
    rwa [Bool.eq_false_iff, ne_eq, checkHolderRefs_iff]
  by_cases hdomains : DomainsFail env re (domainsOf holders)
  · refine ⟨.nullPointer, ?_, nofun⟩
    simp [checkHolders, hholders, hall, hrefs, checkDomains_eq, domainLoop_of_fail hdomains]
  · obtain ⟨hmatch, hid⟩ := hfail.resolve_left hdomains
    obtain ⟨b, hb, hiff⟩ := domainLoop_of_not_fail hdomains
    have hfalse : b = false := by
      rw [Bool.eq_false_iff, ne_eq, hiff]
      exact fun ⟨d, hd, hdm⟩ => hmatch d hd hdm
    refine ⟨.illegalArgument, ?_, nofun⟩
    rw [hfalse] at hb
    simp [checkHolders, hholders, hall, hrefs, checkDomains_eq, hb, checkAppIDorSclID_of_fails hid]

/-- What the check finds when nothing fails. -/
theorem checkHolders_of_not_fails (h : ¬ Fails env re permission) :
    ∃ b, checkHolders env re permission.permissionHolders = .ok b ∧
      (b = true ↔ Matches env re permission ∨ OnlyShort env re permission) := by
  have honly : Matches env re permission ∨ OnlyShort env re permission ↔
      Matches env re permission ∨ ∃ holders, permission.permissionHolders = some holders ∧
        ShortSegment env holders re.text := by
    by_cases hmatch : Matches env re permission <;> simp [OnlyShort, hmatch]
  rw [honly]
  cases hholders : permission.permissionHolders with
  | none => exact ⟨false, rfl, by simp [Matches, hholders]⟩
  | some holders =>
    have hmatches : (Matches env re permission ∨ ∃ holders', some holders = some holders' ∧
          ShortSegment env holders' re.text) ↔
        holders.all = true ∨ re.text ∈ holders.holderRefs.getD [] ∨
          (∃ d ∈ domainsOf holders, DomainMatches env re d) ∨
          checkAppIDorSclID env holders re.text = .ok true := by
      rw [checkAppIDorSclID_iff]
      simp [Matches, hholders, or_assoc]
    rw [hmatches, ← checkHolderRefs_iff]
    cases hall : holders.all with
    | true => exact ⟨true, by simp [checkHolders, hall], by simp⟩
    | false =>
      cases hrefs : checkHolderRefs holders re.text with
      | true => exact ⟨true, by simp [checkHolders, hall, hrefs], by simp⟩
      | false =>
        have hmem : re.text ∉ holders.holderRefs.getD [] := fun hmem =>
          Bool.false_ne_true (hrefs.symm.trans (checkHolderRefs_iff.mpr hmem))
        have hdomains : ¬ DomainsFail env re (domainsOf holders) := fun hd =>
          h ⟨holders, hholders, hall, hmem, .inl hd⟩
        obtain ⟨b, hb, hiff⟩ := domainLoop_of_not_fail hdomains
        cases b with
        | true =>
          refine ⟨true, by simp [checkHolders, hall, hrefs, checkDomains_eq, hb], ?_⟩
          simp [hiff.mp rfl]
        | false =>
          have hnone : ¬ ∃ d ∈ domainsOf holders, DomainMatches env re d := fun hd => by
            cases hiff.mpr hd
          have hid : ¬ IdFails env re.text := fun hid =>
            h ⟨holders, hholders, hall, hmem, .inr ⟨fun d hd hm => hnone ⟨d, hd, hm⟩, hid⟩⟩
          obtain ⟨b', hb'⟩ := checkAppIDorSclID_of_not_fails holders hid
          refine ⟨b', by simp [checkHolders, hall, hrefs, checkDomains_eq, hb, hb'], ?_⟩
          simp [hnone, hb']

theorem finds_iff (h : ¬ Fails env re permission) :
    Finds env re permission ↔ Matches env re permission ∨ OnlyShort env re permission := by
  obtain ⟨b, hb, hiff⟩ := checkHolders_of_not_fails h
  rw [Finds, hb, Except.ok.injEq, hiff]

end Holders

/-! ## The decision -/

/-- The requesting entity is the local sclBase, or a permission that is found has the flag. -/
def Granted (env : Platform) (re : RequestingEntity) (found : Permission → Prop) (flag : JString)
    (permissions : List Permission) : Prop :=
  env.localSclBase re = re.text ∨
    ∃ p ∈ permissions, found p ∧ ∃ flags, p.permissionFlags = some flags ∧ flag ∈ flags

/-- A permission that is found has a flag. -/
def Discovers (found : Permission → Prop) (permissions : List Permission) : Prop :=
  ∃ p ∈ permissions, found p ∧ ∃ flags, p.permissionFlags = some flags ∧ flags ≠ []

/-- A result is the decision about a list of permissions. -/
structure Decides (env : Platform) (re : RequestingEntity) (found : Permission → Prop)
    (flag : JString) (permissions : List Permission) (result : Except Thrown Unit) : Prop where
  granted : result = .ok () ↔ Granted env re found flag permissions
  denied : result = .error (.m2m .permissionDenied) ↔
    ¬ Granted env re found flag permissions ∧ Discovers found permissions
  notFound : result = .error (.m2m .notFound) ↔
    ¬ Granted env re found flag permissions ∧ ¬ Discovers found permissions

/-- What only short segments find makes no difference: access is granted all the same, or what is
found has not the flag, and no other one either unless the entity may know of the resource. -/
def ShortHarmless (env : Platform) (re : RequestingEntity) (flag : JString)
    (permissions : List Permission) : Prop :=
  ∀ p ∈ permissions, OnlyShort env re p → ∀ flags, p.permissionFlags = some flags →
    Granted env re (Matches env re) flag permissions ∨
      flag ∉ flags ∧ (flags = [] ∨ Discovers (Matches env re) permissions)

section Loop

variable {permission : Permission} {flags : List JString} {discover : Bool}

theorem permissionLoop_of_not_finds (h : ¬ Fails env re permission)
    (hfind : ¬ Finds env re permission) :
    permissionLoop env re flag discover (permission :: permissions) =
      permissionLoop env re flag discover permissions := by
  obtain ⟨b, hb, -⟩ := checkHolders_of_not_fails h
  cases b with
  | true => exact absurd hb hfind
  | false => simp only [permissionLoop, hb]

theorem permissionLoop_of_finds (hfind : Finds env re permission)
    (hflags : permission.permissionFlags = some flags) :
    permissionLoop env re flag discover (permission :: permissions) =
      if flag ∈ flags then .ok ()
      else permissionLoop env re flag (discover || !flags.isEmpty) permissions := by
  rw [Finds] at hfind
  simp only [permissionLoop, hfind, hflags]

variable (hflags : ∀ p ∈ permissions, p.permissionFlags.isSome = true)
  (h : ∀ p ∈ permissions, ¬ Fails env re p)
include hflags h

theorem permissionLoop_of_granted (hgrant : ∃ p ∈ permissions,
      Finds env re p ∧ ∃ flags, p.permissionFlags = some flags ∧ flag ∈ flags) :
    permissionLoop env re flag discover permissions = .ok () := by
  induction permissions generalizing discover with
  | nil => simp at hgrant
  | cons p ps ih =>
    obtain ⟨hp, hps⟩ := forall_mem_cons.mp h
    obtain ⟨hflag, hrest⟩ := forall_mem_cons.mp hflags
    obtain ⟨flags, hpf⟩ := Option.isSome_iff_exists.mp hflag
    by_cases hfind : Finds env re p
    · rw [permissionLoop_of_finds hfind hpf]
      split
      · rfl
      · next hmem =>
        refine ih hrest hps ((exists_mem_cons_iff _ _ _).mp hgrant |>.resolve_left ?_)
        rintro ⟨-, flags', hpf', hmem'⟩
        rw [hpf] at hpf'
        exact hmem (Option.some.inj hpf' ▸ hmem')
    · rw [permissionLoop_of_not_finds hp hfind]
      exact ih hrest hps ((exists_mem_cons_iff _ _ _).mp hgrant |>.resolve_left fun hh =>
        hfind hh.1)

variable (hgrant : ¬ ∃ p ∈ permissions,
  Finds env re p ∧ ∃ flags, p.permissionFlags = some flags ∧ flag ∈ flags)
include hgrant

theorem permissionLoop_of_not_granted :
    (discover = true ∨ Discovers (Finds env re) permissions →
      permissionLoop env re flag discover permissions = .error (.m2m .permissionDenied)) ∧
    (¬ (discover = true ∨ Discovers (Finds env re) permissions) →
      permissionLoop env re flag discover permissions = .error (.m2m .notFound)) := by
  induction permissions generalizing discover with
  | nil => cases discover <;> simp [permissionLoop, Discovers]
  | cons p ps ih =>
    obtain ⟨hp, hps⟩ := forall_mem_cons.mp h
    obtain ⟨hflag, hrest⟩ := forall_mem_cons.mp hflags
    obtain ⟨flags, hpf⟩ := Option.isSome_iff_exists.mp hflag
    obtain ⟨hhead, htail⟩ := not_or.mp fun hg => hgrant ((exists_mem_cons_iff _ _ _).mpr hg)
    have hdisc : Discovers (Finds env re) (p :: ps) ↔
        (Finds env re p ∧ flags ≠ []) ∨ Discovers (Finds env re) ps := by
      simp [Discovers, hpf]
    by_cases hfind : Finds env re p
    · have hmem : ¬ flag ∈ flags := fun hmem => hhead ⟨hfind, flags, hpf, hmem⟩
      have hor : (discover || !flags.isEmpty) = true ∨ Discovers (Finds env re) ps ↔
          discover = true ∨ Discovers (Finds env re) (p :: ps) := by
        rw [hdisc]
        simp [hfind, or_assoc]
      rw [permissionLoop_of_finds hfind hpf, if_neg hmem, ← hor]
      exact ih hrest hps htail
    · have hrestd : Discovers (Finds env re) (p :: ps) ↔ Discovers (Finds env re) ps :=
        hdisc.trans (or_iff_right fun hh => hfind hh.1)
      rw [permissionLoop_of_not_finds hp hfind, hrestd]
      exact ih hrest hps htail

end Loop

/-- The decision is that of the permissions which are found. -/
theorem decides_checkPermissions (hflags : ∀ p ∈ permissions, p.permissionFlags.isSome = true)
    (hlocal : env.localSclBase re ≠ re.text) (hno : ∀ p ∈ permissions, ¬ Fails env re p) :
    Decides env re (Finds env re) flag permissions (checkPermissions env re flag permissions) := by
  rw [checkPermissions, if_neg hlocal]
  by_cases hg : ∃ p ∈ permissions,
      Finds env re p ∧ ∃ flags, p.permissionFlags = some flags ∧ flag ∈ flags
  · have hgrant : Granted env re (Finds env re) flag permissions := .inr hg
    rw [permissionLoop_of_granted hflags hno hg]
    exact ⟨by simp [hgrant], by simp [hgrant], by simp [hgrant]⟩
  · have hgrant : ¬ Granted env re (Finds env re) flag permissions := not_or.mpr ⟨hlocal, hg⟩
    obtain ⟨hdenied, hnotFound⟩ :=
      @permissionLoop_of_not_granted env re flag permissions false hflags hno hg
    by_cases hd : Discovers (Finds env re) permissions
    · rw [hdenied (.inr hd)]
      exact ⟨by simp [hgrant], by simp [hgrant, hd], by simp [hd]⟩
    · rw [hnotFound (by simp [hd])]
      exact ⟨by simp [hgrant], by simp [hd], by simp [hgrant, hd]⟩

variable {found found' : Permission → Prop}

theorem Decides.result_cases (h : Decides env re found flag permissions result) :
    result = .ok () ∨ ∃ status, result = .error (.m2m status) := by
  by_cases hg : Granted env re found flag permissions
  · exact .inl (h.granted.mpr hg)
  · by_cases hd : Discovers found permissions
    · exact .inr ⟨_, h.denied.mpr ⟨hg, hd⟩⟩
    · exact .inr ⟨_, h.notFound.mpr ⟨hg, hd⟩⟩

theorem Decides.perm {permissions' : List Permission} (hperm : permissions'.Perm permissions)
    (h : Decides env re found flag permissions' result) :
    Decides env re found flag permissions result := by
  have hg : Granted env re found flag permissions' ↔ Granted env re found flag permissions := by
    simp only [Granted, hperm.mem_iff]
  have hd : Discovers found permissions' ↔ Discovers found permissions := by
    simp only [Discovers, hperm.mem_iff]
  exact ⟨by rw [h.granted, hg], by rw [h.denied, hg, hd], by rw [h.notFound, hg, hd]⟩

/-- One result is the decision for two ways to find permissions when they grant and discover the
same. -/
theorem Decides.agrees_iff (h : Decides env re found flag permissions result) :
    Decides env re found' flag permissions result ↔
      (Granted env re found flag permissions ↔ Granted env re found' flag permissions) ∧
      (¬ Granted env re found flag permissions →
        (Discovers found permissions ↔ Discovers found' permissions)) := by
  constructor
  · intro h'
    have hg := h.granted.symm.trans h'.granted
    refine ⟨hg, fun hn => ?_⟩
    have hdenied := h.denied.symm.trans h'.denied
    rwa [and_iff_right hn, and_iff_right (hg.not.mp hn)] at hdenied
  · rintro ⟨hg, hd⟩
    refine ⟨h.granted.trans hg, h.denied.trans ?_, h.notFound.trans ?_⟩ <;> rw [← hg]
    · exact and_congr_right hd
    · exact and_congr_right fun hn => not_congr (hd hn)

/-- What is found grants and discovers the same as what matches exactly when short segments make no
difference. -/
theorem agree_iff_shortHarmless (hno : ∀ p ∈ permissions, ¬ Fails env re p) :
    (Granted env re (Finds env re) flag permissions ↔
        Granted env re (Matches env re) flag permissions) ∧
      (¬ Granted env re (Finds env re) flag permissions →
        (Discovers (Finds env re) permissions ↔ Discovers (Matches env re) permissions)) ↔
    ShortHarmless env re flag permissions := by
  have hfinds : ∀ p ∈ permissions, Matches env re p → Finds env re p :=
    fun p hp hm => (finds_iff (hno p hp)).mpr (.inl hm)
  have hgrants : Granted env re (Matches env re) flag permissions →
      Granted env re (Finds env re) flag permissions :=
    Or.imp_right fun ⟨p, hp, hm, hflag⟩ => ⟨p, hp, hfinds p hp hm, hflag⟩
  constructor
  · rintro ⟨hg, hd⟩ p hp honly flags hpf
    have hfind : Finds env re p := (finds_iff (hno p hp)).mpr (.inr honly)
    refine or_iff_not_imp_left.mpr fun hn => ⟨fun hflag => ?_, ?_⟩
    · exact hn (hg.mp (.inr ⟨p, hp, hfind, flags, hpf, hflag⟩))
    · refine or_iff_not_imp_left.mpr fun hne => ?_
      exact (hd (hg.not.mpr hn)).mp ⟨p, hp, hfind, flags, hpf, hne⟩
  · intro h
    refine ⟨⟨?_, hgrants⟩, fun hn => ⟨?_, ?_⟩⟩
    · rintro (hlocal | ⟨p, hp, hfind, flags, hpf, hflag⟩)
      · exact .inl hlocal
      · rcases (finds_iff (hno p hp)).mp hfind with hm | honly
        · exact .inr ⟨p, hp, hm, flags, hpf, hflag⟩
        · exact (h p hp honly flags hpf).resolve_right fun hnot => hnot.1 hflag
    · rintro ⟨p, hp, hfind, flags, hpf, hne⟩
      rcases (finds_iff (hno p hp)).mp hfind with hm | honly
      · exact ⟨p, hp, hm, flags, hpf, hne⟩
      · exact ((h p hp honly flags hpf).resolve_left (mt hgrants hn)).2.resolve_left hne
    · rintro ⟨p, hp, hm, hflag⟩
      exact ⟨p, hp, hfinds p hp hm, hflag⟩

/-- **The permissions decide as stated in every order** exactly when the requesting entity is the
local sclBase, or no permission fails and none that only a short segment finds makes a
difference. -/
theorem decides_of_condition (env : Platform) (re : RequestingEntity) (flag : JString)
    (permissions : List Permission) (hflags : ∀ p ∈ permissions, p.permissionFlags.isSome = true) :
    (∀ permissions', permissions'.Perm permissions →
        Decides env re (Matches env re) flag permissions
          (checkPermissions env re flag permissions')) ↔
      (env.localSclBase re = re.text ∨
        (∀ p ∈ permissions, ¬ Fails env re p) ∧ ShortHarmless env re flag permissions) := by
  by_cases hlocal : env.localSclBase re = re.text
  · refine iff_of_true (fun permissions' _ => ?_) (.inl hlocal)
    have hg : Granted env re (Matches env re) flag permissions := .inl hlocal
    rw [checkPermissions, if_pos hlocal]
    exact ⟨by simp [hg], by simp [hg], by simp [hg]⟩
  rw [or_iff_right hlocal]
  by_cases hno : ∀ p ∈ permissions, ¬ Fails env re p
  · rw [and_iff_right hno, ← agree_iff_shortHarmless hno]
    have hfound : ∀ permissions', permissions'.Perm permissions →
        Decides env re (Finds env re) flag permissions
          (checkPermissions env re flag permissions') := fun permissions' hperm =>
      (decides_checkPermissions (fun p hp => hflags p (hperm.mem_iff.mp hp)) hlocal
        fun p hp => hno p (hperm.mem_iff.mp hp)).perm hperm
    constructor
    · exact fun h => (hfound _ (.refl _)).agrees_iff.mp (h _ (.refl _))
    · exact fun h permissions' hperm => (hfound permissions' hperm).agrees_iff.mpr h
  · refine iff_of_false (fun h => hno fun p hp hfails => ?_) fun h => hno h.1
    have hresult := (h (p :: permissions.erase p) (perm_cons_erase hp).symm).result_cases
    obtain ⟨e, he, hne⟩ := checkHolders_of_fails hfails
    rw [checkPermissions, if_neg hlocal] at hresult
    simp only [permissionLoop, he] at hresult
    rcases hresult with hok | ⟨status, hstatus⟩
    · cases hok
    · exact hne status (by simpa using hstatus)

/-- Permissions for the entities of a domain, for an application and for another entity. -/
def byHolders : List Permission :=
  [⟨some ⟨false, none, some ["http://other".toList], none, none⟩, some ["WRITE".toList]⟩,
    ⟨some ⟨false, none, none, some ["meter".toList], none⟩, some ["READ".toList]⟩,
    ⟨some ⟨false, some ["http://someone".toList], none, none, none⟩, some ["CREATE".toList]⟩]

def meter : RequestingEntity :=
  ⟨"http://other/applications/meter".toList, some "other".toList⟩

theorem decides_meter :
    (∀ p ∈ byHolders, p.permissionFlags.isSome = true) ∧
      ∀ permissions', permissions'.Perm byHolders →
        Decides plain meter (Matches plain meter) "READ".toList byHolders
          (checkPermissions plain meter "READ".toList permissions') := by
  have hnamed : Named meter.text resApplications "meter".toList :=
    ⟨["http:".toList, [], "other".toList], by decide +kernel, by simp⟩
  have hno : ∀ p ∈ byHolders, ¬ Fails plain meter p := by
    rintro p hp ⟨holders, hholders, -, -, hfail | ⟨-, _, _, -, -, hdecode⟩⟩
    · simp only [byHolders, mem_cons, not_mem_nil, or_false] at hp
      rcases hp with rfl | rfl | rfl <;> cases hholders
      · obtain ⟨uri, huri, hpath, -⟩ := hfail.resolve_right And.right
        cases huri
        exact hpath (by decide +kernel)
      · exact hfail
      · exact hfail
    · cases hdecode
  have hshort : ShortHarmless plain meter "READ".toList byHolders := by
    rintro p - ⟨-, holders, -, seg, last, hnamed', hseg⟩
    obtain ⟨rfl, rfl⟩ := hnamed.unique hnamed'
    rcases hseg with ⟨-, hlen, -⟩ | ⟨hscl, -⟩
    · exact absurd hlen (Nat.lt_irrefl _)
    · exact absurd hscl (by decide +kernel)
  exact ⟨by decide +kernel,
    (decides_of_condition plain meter "READ".toList byHolders (by decide +kernel)).mpr
      (.inr ⟨hno, hshort⟩)⟩

/-- Two permissions, the first for a domain that is given by its name alone. -/
def nameOnly : List Permission :=
  [⟨some ⟨false, none, some ["example.com".toList], none, none⟩, some ["READ".toList]⟩,
    ⟨some ⟨true, none, none, none, none⟩, some ["READ".toList]⟩]

/-- A permission for the application `meter`. -/
def forMeter : List Permission :=
  [⟨some ⟨false, none, none, some ["meter".toList], none⟩, some ["READ".toList]⟩]

/-- A domain given by its name alone ends the decision about an entity of another host, which the
permission after it grants; and `http://any/a/meter` is granted what is for the application. -/
theorem nameOnly_not_decided :
    ((∀ p ∈ nameOnly, p.permissionFlags.isSome = true) ∧
      checkPermissions plain ⟨"http://other/x".toList, some "other".toList⟩ "READ".toList
        nameOnly = .error .nullPointer ∧
      ¬ Decides plain ⟨"http://other/x".toList, some "other".toList⟩
        (Matches plain ⟨"http://other/x".toList, some "other".toList⟩) "READ".toList nameOnly
        (checkPermissions plain ⟨"http://other/x".toList, some "other".toList⟩ "READ".toList
          nameOnly)) ∧
    (∀ p ∈ forMeter, p.permissionFlags.isSome = true) ∧
      checkPermissions plain ⟨"http://any/a/meter".toList, none⟩ "READ".toList forMeter = .ok () ∧
      ¬ Decides plain ⟨"http://any/a/meter".toList, none⟩
        (Matches plain ⟨"http://any/a/meter".toList, none⟩) "READ".toList forMeter
        (checkPermissions plain ⟨"http://any/a/meter".toList, none⟩ "READ".toList forMeter) := by
  have herror : checkPermissions plain ⟨"http://other/x".toList, some "other".toList⟩
      "READ".toList nameOnly = .error .nullPointer := by decide +kernel
  have hok : checkPermissions plain ⟨"http://any/a/meter".toList, none⟩ "READ".toList forMeter =
      .ok () := by decide +kernel
  refine ⟨⟨by decide +kernel, herror, fun h => ?_⟩, by decide +kernel, hok, fun h => ?_⟩
  · rw [herror] at h
    refine nomatch h.granted.mpr (.inr ⟨_, mem_cons_of_mem _ mem_cons_self, ?_⟩)
    exact ⟨⟨_, rfl, .inl rfl⟩, _, rfl, mem_cons_self⟩
  · rcases h.granted.mp hok with hlocal | ⟨p, hp, ⟨holders, hholders, hmatch⟩, -⟩
    · exact absurd hlocal (by decide +kernel)
    · cases mem_singleton.mp hp
      cases hholders
      have hnamed : Named "http://any/a/meter".toList "a".toList "meter".toList :=
        ⟨["http:".toList, [], "any".toList], by decide +kernel, by simp⟩
      rcases hmatch with hall | href | ⟨d, hd, -⟩ | ⟨seg, last, id, hnamed', -, hid⟩
      · cases hall
      · cases href
      · cases hd
      · obtain ⟨rfl, rfl⟩ := hnamed.unique hnamed'
        rcases hid with ⟨hwhole, -⟩ | ⟨hwhole, -⟩ <;> revert hwhole <;> decide +kernel

end SclResource

end Ong.Scl
