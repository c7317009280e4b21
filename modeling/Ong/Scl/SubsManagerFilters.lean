import Ong.Lib.Run
import Ong.Scl.SubsManager

/-!
# The isolation of the filters of the subscriptions

Each subscription comes with its own filter criteria, which nothing but its own successful confirms
should change.  The manager merges the criteria of all of them in place, in an object that may be
that of one subscription.

## Main results

* `isolates_of_condition`: an operation that meets the condition isolates the subscriptions
-/

namespace Ong.Scl

open M2M FilterCriteria SubsManager Store Option

structure FilterState where
  manager : SubsManager
  shared : Shared

inductive FilterEvent
  | addSubscription (id : String) (path : Path) (filterCriteria : Option FilterCriteria)
  | removeSubscription (id : String)
  /-- The successful confirm of a notify requested at the given time. -/
  | successConfirm (id : String) (time : Int)

/-- The filter criteria parsed from a subscription: a new object, with a new date. -/
def parseFilterCriteria (filterCriteria : Option FilterCriteria) (sh : Shared) :
    Option Nat × Shared :=
  match filterCriteria with
  | none => (none, sh)
  | some c =>
    let c : FilterCriteria :=
      { c with ifModifiedSince := c.ifModifiedSince.map fun d => ⟨sh.nextDate, d.time⟩ }
    (some sh.criteria.next,
      { sh with criteria := sh.criteria.alloc c, nextDate := sh.nextDate + 1 })

/-- An addition that is refused leaves the parsed criteria behind. -/
def filterStep (config : SclConfig) (it : IterationOrder) (s : FilterState) :
    FilterEvent → Option FilterState
  | .addSubscription id path filterCriteria =>
    let (r, sh) := parseFilterCriteria filterCriteria s.shared
    match s.manager.addSubscription config id ⟨path, r⟩ sh with
    | some (m, sh) => some ⟨m, sh⟩
    | none => some { s with shared := sh }
  | .removeSubscription id =>
    let (_, m, sh) := s.manager.removeSubscription it id s.shared
    some ⟨m, sh⟩
  | .successConfirm id time =>
    (s.manager.confirmFilterCriteria it id time s.shared).map fun (m, sh) => ⟨m, sh⟩

/-- The contents of the filter criteria of each subscription. -/
def contents (s : FilterState) (id : String) : Option (Option FilterCriteria) :=
  (s.manager.getSubscription id).map fun sub =>
    sub.filterCriteria.map fun r => (s.shared.criteria.get r).content

/-- **Isolation**: adding or removing a subscription leaves the contents of the others, and a
confirm changes the `ifModifiedSince` of its own subscription only. -/
def Isolates (s : FilterState) (e : FilterEvent) (t : FilterState) : Prop :=
  match e with
  | .addSubscription id _ filterCriteria =>
    (∀ k ≠ id, contents t k = contents s k) ∧
      (contents t id = some (filterCriteria.map content) ∨ contents t id = contents s id)
  | .removeSubscription id => (∀ k ≠ id, contents t k = contents s k) ∧ contents t id = none
  | .successConfirm id time =>
    (∀ k ≠ id, contents t k = contents s k) ∧
      contents t id = (contents s id).map fun c =>
        some { c.getD {} with ifModifiedSince := some ⟨0, time⟩ }

/-- `r` is the object of a subscription other than `id`. -/
def HeldByOther (s : FilterState) (id : String) (r : Nat) : Prop :=
  ∃ k ≠ id, ∃ sub, s.manager.getSubscription k = some sub ∧ sub.filterCriteria = some r

/-- The subscriptions merged by a removal: those before one without criteria, which ends it. -/
def mergedSubs (it : IterationOrder) (s : FilterState) (id : String) : List Sub :=
  (it.order (s.manager.erase id).values).takeWhile fun sub => sub.filterCriteria.isSome

/-- When an operation isolates the subscriptions.  The merged object is written to by an addition
to a manager with subscriptions, by a removal that leaves at least two of them, and by a confirm
whose date was that of the merged object; if it is the object of another subscription then

* an addition that the quotas accept, or a removal, only merges criteria that it covers;
* a confirm leaves its date: the dates of all the subscriptions, and the new one, are not earlier. -/
def FilterCondition (config : SclConfig) (it : IterationOrder) (s : FilterState) :
    FilterEvent → Prop
  | .addSubscription id _ filterCriteria =>
    s.manager.size < config.maxSubscriptionsPerResource →
      s.shared.nbOfSubscriptions < config.maxSubscriptions → s.manager.size ≠ 0 →
        ∀ r f, s.manager.filterCriteria = some r → filterCriteria = some f →
          HeldByOther s id r → Covers (s.shared.criteria.get r) f
  | .removeSubscription id =>
    ∀ r, s.manager.filterCriteria = some r → HeldByOther s id r →
      ∀ sub ∈ mergedSubs it s id, ∀ f, sub.filterCriteria = some f →
        Covers (s.shared.criteria.get r) (s.shared.criteria.get f)
  | .successConfirm id time =>
    s.manager.size ≠ 1 → ∀ r, s.manager.filterCriteria = some r → HeldByOther s id r →
      ∀ d, (s.shared.criteria.get r).ifModifiedSince = some d →
        d.time ≤ time ∧
          ∀ k ≠ id, ∀ sub, s.manager.getSubscription k = some sub →
            ∀ date, ifModifiedSince s.shared.criteria sub.filterCriteria = some date →
              d.time ≤ date.time

/-- The invariant of every run: the objects of the subscriptions are allocated and distinct, and so
are the dates. -/
structure Objects (s : FilterState) : Prop where
  depends : s.manager.dependsOnFilterCriteria = true
  allocated : ∀ k sub r, s.manager.getSubscription k = some sub → sub.filterCriteria = some r →
    r < s.shared.criteria.next
  distinct : ∀ k k' sub sub' r, s.manager.getSubscription k = some sub →
    s.manager.getSubscription k' = some sub' → sub.filterCriteria = some r →
    sub'.filterCriteria = some r → k = k'
  merged : ∀ r, s.manager.filterCriteria = some r → r < s.shared.criteria.next
  dates : ∀ r d, (s.shared.criteria.get r).ifModifiedSince = some d → d.ref < s.shared.nextDate

section Merges

variable (criteria : Store FilterCriteria) (merged other : Option Nat) (subs : List Sub)

theorem mergeInto_next : (mergeInto criteria merged other).1.next = criteria.next := by
  cases merged <;> cases other <;> rfl

variable {merged} in
theorem mergeInto_get {x : Nat} (hx : merged ≠ some x) :
    (mergeInto criteria merged other).1.get x = criteria.get x := by
  cases merged with
  | none => rfl
  | some r =>
    cases other with
    | none => rfl
    | some f => exact get_set_of_ne criteria (fun h => hx (congrArg some h.symm)) _

theorem mergeInto_merged :
    (mergeInto criteria merged other).2 = merged ∨ (mergeInto criteria merged other).2 = none := by
  cases merged <;> cases other <;> simp [mergeInto]

variable {criteria} in
theorem mergeInto_of_covers {r f : Nat} (h : Covers (criteria.get r) (criteria.get f)) :
    mergeInto criteria (some r) (some f) = (criteria, some r) := by
  simp only [mergeInto, merge_of_covers h, set_get]

theorem earliest_mem {a b : Option Date} {d : Date} (h : earliest a b = some d) :
    a = some d ∨ b = some d := by
  rcases a with - | a <;> rcases b with - | b <;> simp only [earliest] at h
  · cases h
  · cases h
  · cases h
  · split at h
    · exact .inr h
    · exact .inl h

variable {criteria} in
theorem mergeInto_dates {P : Date → Prop}
    (h : ∀ r d, (criteria.get r).ifModifiedSince = some d → P d) (r : Nat) (d : Date)
    (hd : ((mergeInto criteria merged other).1.get r).ifModifiedSince = some d) : P d := by
  by_cases hr : merged = some r
  · subst hr
    cases other with
    | none => exact h r d hd
    | some f =>
      rw [mergeInto, get_set_self] at hd
      rcases earliest_mem hd with hd | hd
      · exact h r d hd
      · exact h f d hd
  · rw [mergeInto_get criteria other hr] at hd
    exact h r d hd

theorem mergeAll_cons (sub : Sub) :
    mergeAll (criteria, merged) (sub :: subs) =
      mergeAll (mergeInto criteria merged sub.filterCriteria) subs := rfl

theorem mergeAll_none : mergeAll (criteria, none) subs = (criteria, none) := by
  induction subs with
  | nil => rfl
  | cons sub subs ih => exact ih

theorem mergeAll_next : (mergeAll (criteria, merged) subs).1.next = criteria.next := by
  induction subs generalizing criteria merged with
  | nil => rfl
  | cons sub subs ih =>
    exact (ih _ _).trans (mergeInto_next criteria merged sub.filterCriteria)

variable {merged} in
theorem mergeAll_get {x : Nat} (hx : merged ≠ some x) :
    (mergeAll (criteria, merged) subs).1.get x = criteria.get x := by
  induction subs generalizing criteria merged with
  | nil => rfl
  | cons sub subs ih =>
    have hne : (mergeInto criteria merged sub.filterCriteria).2 ≠ some x := by
      rcases mergeInto_merged criteria merged sub.filterCriteria with h | h <;> rw [h]
      · exact hx
      · exact nofun
    rw [mergeAll_cons, ← mergeInto_get criteria sub.filterCriteria hx]
    exact ih _ hne

theorem mergeAll_merged :
    (mergeAll (criteria, merged) subs).2 = merged ∨
      (mergeAll (criteria, merged) subs).2 = none := by
  induction subs generalizing criteria merged with
  | nil => exact .inl rfl
  | cons sub subs ih =>
    have hrest := ih (mergeInto criteria merged sub.filterCriteria).1
      (mergeInto criteria merged sub.filterCriteria).2
    rcases mergeInto_merged criteria merged sub.filterCriteria with h | h
    · exact hrest.imp (fun hr => hr.trans h) id
    · exact .inr (hrest.elim (fun hr => hr.trans h) id)

variable {criteria} in
theorem mergeAll_dates {P : Date → Prop}
    (h : ∀ r d, (criteria.get r).ifModifiedSince = some d → P d) (r : Nat) (d : Date)
    (hd : ((mergeAll (criteria, merged) subs).1.get r).ifModifiedSince = some d) : P d := by
  induction subs generalizing criteria merged with
  | nil => exact h r d hd
  | cons sub subs ih => exact ih _ (mergeInto_dates merged sub.filterCriteria h) hd

variable {criteria subs} in
/-- The objects are untouched when the merged one covers all that is merged into it, up to the
first subscription without criteria. -/
theorem mergeAll_of_covers {r : Nat}
    (h : ∀ sub ∈ subs.takeWhile fun sub => sub.filterCriteria.isSome,
      ∀ f, sub.filterCriteria = some f → Covers (criteria.get r) (criteria.get f)) :
    (mergeAll (criteria, some r) subs).1 = criteria := by
  induction subs with
  | nil => rfl
  | cons sub subs ih =>
    rw [mergeAll_cons]
    cases hf : sub.filterCriteria with
    | none => exact congrArg Prod.fst (mergeAll_none criteria subs)
    | some f =>
      have htake : (sub :: subs).takeWhile (fun sub => sub.filterCriteria.isSome) =
          sub :: subs.takeWhile fun sub => sub.filterCriteria.isSome := by
        simp [hf]
      rw [htake] at h
      rw [mergeInto_of_covers (h sub List.mem_cons_self f hf)]
      exact ih fun sub' hsub' => h sub' (List.mem_cons_of_mem _ hsub')

end Merges

section Operations

variable {s t : FilterState} {config : SclConfig} {it : IterationOrder}

theorem contents_congr {k : String}
    (hsub : t.manager.getSubscription k = s.manager.getSubscription k)
    (hget : ∀ sub r, s.manager.getSubscription k = some sub → sub.filterCriteria = some r →
      (t.shared.criteria.get r).content = (s.shared.criteria.get r).content) :
    contents t k = contents s k := by
  rw [contents, contents, hsub]
  cases hk : s.manager.getSubscription k with
  | none => rfl
  | some sub =>
    cases hr : sub.filterCriteria with
    | none => simp [hr]
    | some r => simp [hr, hget sub r hk hr]

theorem content_dated (c : FilterCriteria) (n : Nat) :
    content { c with ifModifiedSince := c.ifModifiedSince.map fun d => ⟨n, d.time⟩ } =
      content c := by
  simp [content, Function.comp_def]

theorem FilterCriteria.Covers.dated {r f : FilterCriteria} (h : Covers r f) (n : Nat) :
    Covers r { f with ifModifiedSince := f.ifModifiedSince.map fun d => ⟨n, d.time⟩ } := by
  refine ⟨?_, h.ifUnmodifiedSince, h.ifNoneMatch, h.searchString, h.createdAfter,
    h.createdBefore, h.sizeFrom, h.sizeUntil, h.contentType, h.metaDataOnly⟩
  rw [map_map]
  exact h.ifModifiedSince

/-- Parsing only creates objects. -/
structure Parsed (fc : Option FilterCriteria) (sh : Shared) (r : Option Nat) (sh' : Shared) :
    Prop where
  old : ∀ x < sh.criteria.next, sh'.criteria.get x = sh.criteria.get x
  next : sh.criteria.next ≤ sh'.criteria.next
  fresh : ∀ x, r = some x → sh.criteria.next ≤ x ∧ x < sh'.criteria.next
  parsed : r.map (fun x => (sh'.criteria.get x).content) = fc.map content
  covers : ∀ x f, r = some x → fc = some f → ∀ c, Covers c f → Covers c (sh'.criteria.get x)
  dates : ∀ x d, (sh'.criteria.get x).ifModifiedSince = some d →
    (sh.criteria.get x).ifModifiedSince = some d ∨ (fc.isSome = true ∧ d.ref = sh.nextDate)
  quota : sh'.nbOfSubscriptions = sh.nbOfSubscriptions
  nextDate : sh.nextDate ≤ sh'.nextDate ∧ (fc.isSome = true → sh.nextDate < sh'.nextDate)

theorem parsed_parseFilterCriteria (fc : Option FilterCriteria) (sh : Shared) :
    Parsed fc sh (parseFilterCriteria fc sh).1 (parseFilterCriteria fc sh).2 := by
  cases fc with
  | none =>
    constructor
    case old => exact fun _ _ => rfl
    case next => exact Nat.le_refl _
    case fresh => rintro x ⟨⟩
    case parsed => rfl
    case covers => rintro x f ⟨⟩
    case dates => exact fun _ _ h => .inl h
    case quota => rfl
    case nextDate => exact ⟨Nat.le_refl _, nofun⟩
  | some c =>
    simp only [parseFilterCriteria]
    constructor
    case old =>
      intro x hx
      exact get_alloc_of_lt _ hx _
    case next => exact Nat.le_succ _
    case fresh =>
      rintro x ⟨⟩
      exact ⟨Nat.le_refl _, Nat.lt_succ_self _⟩
    case parsed => simp [content_dated]
    case covers =>
      rintro x f ⟨⟩ ⟨⟩ r hr
      rw [get_alloc_next]
      exact hr.dated sh.nextDate
    case dates =>
      intro x d hd
      by_cases hx : x = sh.criteria.next
      · subst hx
        rw [get_alloc_next] at hd
        obtain ⟨d', -, rfl⟩ := map_eq_some_iff.mp hd
        exact .inr ⟨rfl, rfl⟩
      · refine .inl ?_
        simpa [alloc, hx] using hd
    case quota => rfl
    case nextDate => exact ⟨Nat.le_succ _, fun _ => Nat.lt_succ_self _⟩

theorem Objects.insert {id : String} {sub : Sub} (h : Objects s)
    (hsubs : t.manager.subscriptions = s.manager.subscriptions.insert id sub)
    (hdep : t.manager.dependsOnFilterCriteria = true)
    (hnext : s.shared.criteria.next ≤ t.shared.criteria.next)
    (hfresh : ∀ r, sub.filterCriteria = some r →
      s.shared.criteria.next ≤ r ∧ r < t.shared.criteria.next)
    (hmerged : ∀ r, t.manager.filterCriteria = some r → r < t.shared.criteria.next)
    (hdates : ∀ r d, (t.shared.criteria.get r).ifModifiedSince = some d →
      d.ref < t.shared.nextDate) : Objects t := by
  have hget : ∀ k, t.manager.getSubscription k =
      if k = id then some sub else s.manager.getSubscription k :=
    fun k => getSubscription_insert hsubs
  refine ⟨hdep, fun k sub' r hk hr => ?_, fun k k' sub₁ sub₂ r hk hk' hr hr' => ?_, hmerged, hdates⟩
  · rw [hget] at hk
    split at hk
    · cases hk
      exact (hfresh r hr).2
    · exact lt_of_lt_of_le (h.allocated k sub' r hk hr) hnext
  · rw [hget] at hk hk'
    have hold : ∀ k sub', s.manager.getSubscription k = some sub' →
        sub'.filterCriteria = some r → sub.filterCriteria ≠ some r := fun k sub' hk hr hs =>
      absurd (h.allocated k sub' r hk hr) (not_lt.mpr (hfresh r hs).1)
    split at hk <;> split at hk'
    case isTrue.isTrue h₁ h₂ => rw [h₁, h₂]
    case isTrue.isFalse =>
      cases hk
      exact absurd hr (hold k' sub₂ hk' hr')
    case isFalse.isTrue =>
      cases hk'
      exact absurd hr' (hold k sub₁ hk hr)
    case isFalse.isFalse => exact h.distinct k k' sub₁ sub₂ r hk hk' hr hr'

theorem Objects.mono (h : Objects s)
    (hsubs : ∀ k sub, t.manager.getSubscription k = some sub →
      s.manager.getSubscription k = some sub)
    (hdep : t.manager.dependsOnFilterCriteria = true)
    (hnext : s.shared.criteria.next ≤ t.shared.criteria.next)
    (hmerged : ∀ r, t.manager.filterCriteria = some r → r < t.shared.criteria.next)
    (hdates : ∀ r d, (t.shared.criteria.get r).ifModifiedSince = some d →
      d.ref < t.shared.nextDate) : Objects t where
  depends := hdep
  allocated k sub r hk hr := lt_of_lt_of_le (h.allocated k sub r (hsubs k sub hk) hr) hnext
  distinct k k' sub sub' r hk hk' hr hr' :=
    h.distinct k k' sub sub' r (hsubs k sub hk) (hsubs k' sub' hk') hr hr'
  merged := hmerged
  dates := hdates

theorem Parsed.dates_lt {fc : Option FilterCriteria} {r : Option Nat} {sh' : Shared}
    (hp : Parsed fc s.shared r sh') (h : Objects s) (x : Nat) (d : Date)
    (hd : (sh'.criteria.get x).ifModifiedSince = some d) : d.ref < sh'.nextDate := by
  rcases hp.dates x d hd with hold | ⟨hsome, hnew⟩
  · exact lt_of_lt_of_le (h.dates x d hold) hp.nextDate.1
  · rw [hnew]
    exact hp.nextDate.2 hsome

/-- **Adding a subscription.** -/
theorem addSubscription_isolates {id : String} {path : Path} {fc : Option FilterCriteria}
    (h : Objects s) (hC : FilterCondition config it s (.addSubscription id path fc))
    (ht : filterStep config it s (.addSubscription id path fc) = some t) :
    Objects t ∧ Isolates s (.addSubscription id path fc) t := by
  have hp := parsed_parseFilterCriteria fc s.shared
  simp only [filterStep] at ht
  revert hp ht
  generalize parseFilterCriteria fc s.shared = p
  obtain ⟨r, sh⟩ := p
  intro ht hp
  cases hadd : s.manager.addSubscription config id ⟨path, r⟩ sh with
  | none =>
    rw [hadd] at ht
    cases ht
    refine ⟨h.mono (fun _ _ hk => hk) h.depends hp.next
      (fun x hx => lt_of_lt_of_le (h.merged x hx) hp.next) (hp.dates_lt h), ?_⟩
    have hsame : ∀ k, contents { s with shared := sh } k = contents s k := fun k =>
      contents_congr rfl fun sub x hk hx => by rw [hp.old x (h.allocated k sub x hk hx)]
    exact ⟨fun k _ => hsame k, .inr (hsame id)⟩
  | some q =>
    obtain ⟨m', sh'⟩ := q
    rw [hadd] at ht
    cases ht
    obtain ⟨⟨hper, hall⟩, hsubs, hdep, -, hdate, hcriteria⟩ := addSubscription_eq_some hadd
    have hkeep : ∀ k, k ≠ id → (⟨m', sh'⟩ : FilterState).manager.getSubscription k =
        s.manager.getSubscription k := fun k hk => by
      rw [getSubscription_insert hsubs, if_neg hk]
      rfl
    have hid : m'.getSubscription id = some ⟨path, r⟩ := by
      rw [getSubscription_insert hsubs, if_pos rfl]
    rw [if_pos h.depends] at hcriteria
    by_cases hsize : s.manager.size = 0
    · rw [if_pos hsize, Prod.mk.injEq] at hcriteria
      obtain ⟨hcrit, hfc⟩ := hcriteria
      refine ⟨h.insert hsubs (hdep.trans h.depends) (by rw [hcrit]; exact hp.next) ?_ ?_ ?_, ?_, .inl ?_⟩
      · rw [hcrit]
        exact hp.fresh
      · intro x hx
        rw [hcrit]
        exact (hp.fresh x (hfc.symm.trans hx)).2
      · intro x d hd
        rw [hcrit] at hd
        rw [hdate]
        exact hp.dates_lt h x d hd
      · intro k hk
        refine contents_congr (hkeep k hk) fun sub x hsub hx => ?_
        rw [hcrit, hp.old x (h.allocated k sub x hsub hx)]
      · rw [contents, hid, hcrit]
        exact congrArg some hp.parsed
    · rw [if_neg hsize] at hcriteria
      have hcrit := congrArg Prod.fst hcriteria
      have hfc := congrArg Prod.snd hcriteria
      dsimp only at hcrit hfc
      have hnext : sh'.criteria.next = sh.criteria.next := by
        rw [hcrit, mergeInto_next]
      have hold : ∀ x, r = some x → s.manager.filterCriteria ≠ some x := fun x hx hm =>
        absurd (h.merged x hm) (not_lt.mpr (hp.fresh x hx).1)
      refine ⟨h.insert hsubs (hdep.trans h.depends) (by rw [hnext]; exact hp.next) ?_ ?_ ?_, ?_, .inl ?_⟩
      · rw [hnext]
        exact hp.fresh
      · intro x hx
        rw [hnext]
        rw [hfc] at hx
        rcases mergeInto_merged sh.criteria s.manager.filterCriteria r with hm | hm
        · rw [hm] at hx
          exact lt_of_lt_of_le (h.merged x hx) hp.next
        · rw [hm] at hx
          cases hx
      · intro x d hd
        rw [hcrit] at hd
        rw [hdate]
        exact mergeInto_dates _ _ (hp.dates_lt h) x d hd
      · intro k hk
        refine contents_congr (hkeep k hk) fun sub x hsub hx => ?_
        have hlt := h.allocated k sub x hsub hx
        rw [hcrit]
        by_cases hm : s.manager.filterCriteria = some x
        · rw [hm]
          cases hr : r with
          | none => rw [← hp.old x hlt]; rfl
          | some f =>
            obtain ⟨c, hc⟩ : ∃ c, fc = some c := by
              have hparsed := hp.parsed
              rw [hr] at hparsed
              cases hfc' : fc with
              | none => rw [hfc'] at hparsed; cases hparsed
              | some c => exact ⟨c, rfl⟩
            have hcov := hC hper (hp.quota ▸ hall) hsize x c hm hc ⟨k, hk, sub, hsub, hx⟩
            rw [← hp.old x hlt] at hcov
            rw [mergeInto_of_covers (hp.covers f c hr hc _ hcov), hp.old x hlt]
        · rw [mergeInto_get _ _ hm, hp.old x hlt]
      · rw [contents, hid]
        rw [hcrit, map_some, ← hp.parsed]
        cases hr : r with
        | none => rfl
        | some f =>
          simp only [map_some]
          rw [mergeInto_get _ _ (hold f hr)]

theorem removeSubscription_cases (h : Objects s) {id : String}
    (ht : filterStep config it s (.removeSubscription id) = some t) :
    (s.manager.getSubscription id = none ∧ t = s) ∨
    (t.manager.subscriptions = s.manager.subscriptions.erase id ∧
      t.manager.dependsOnFilterCriteria = true ∧ t.shared.nextDate = s.shared.nextDate ∧
      ((t.shared.criteria = s.shared.criteria ∧
          (t.manager.filterCriteria = s.manager.filterCriteria ∨
            ∃ k sub, (s.manager.erase id).getSubscription k = some sub ∧
              t.manager.filterCriteria = sub.filterCriteria)) ∨
        (t.shared.criteria, t.manager.filterCriteria) =
          mergeAll (s.shared.criteria, s.manager.filterCriteria)
            (it.order (s.manager.erase id).values))) := by
  simp only [filterStep, SubsManager.removeSubscription] at ht
  cases hid : s.manager.subscriptions.lookup id with
  | none =>
    rw [hid] at ht
    cases ht
    exact .inl ⟨hid, rfl⟩
  | some sub =>
    rw [hid] at ht
    simp only [if_pos h.depends] at ht
    refine .inr ?_
    cases horder : it.order (s.manager.erase id).values with
    | nil =>
      rw [horder] at ht
      cases ht
      exact ⟨rfl, h.depends, rfl, .inl ⟨rfl, .inl rfl⟩⟩
    | cons last more =>
      cases more with
      | nil =>
        have hlast : last ∈ (s.manager.erase id).values :=
          (it.perm _).mem_iff.mp (by rw [horder]; exact List.mem_singleton_self last)
        obtain ⟨⟨k, sub'⟩, hmem, rfl⟩ := List.mem_map.mp hlast
        have hk : (s.manager.erase id).getSubscription k = some sub' :=
          AList.mem_lookup_iff.mpr hmem
        rw [horder] at ht
        cases ht
        exact ⟨rfl, h.depends, rfl, .inl ⟨rfl, .inr ⟨k, sub', hk, rfl⟩⟩⟩
      | cons last' more =>
        rw [horder] at ht
        cases ht
        exact ⟨rfl, h.depends, rfl, .inr rfl⟩

/-- **Removing a subscription.** -/
theorem removeSubscription_isolates {id : String} (h : Objects s)
    (hC : FilterCondition config it s (.removeSubscription id))
    (ht : filterStep config it s (.removeSubscription id) = some t) :
    Objects t ∧ Isolates s (.removeSubscription id) t := by
  rcases removeSubscription_cases h ht with ⟨hid, rfl⟩ | ⟨hsubs, hdep, hdate, hcases⟩
  · exact ⟨h, fun _ _ => rfl, by rw [contents, hid]; rfl⟩
  have hkeep : ∀ k, k ≠ id → t.manager.getSubscription k = s.manager.getSubscription k :=
    fun k hk => by rw [getSubscription, hsubs, AList.lookup_erase_ne hk]; rfl
  have hgone : t.manager.getSubscription id = none := by
    rw [getSubscription, hsubs, AList.lookup_erase]
  have hsub : ∀ k sub, t.manager.getSubscription k = some sub →
      s.manager.getSubscription k = some sub := fun k sub hk => by
    by_cases hki : k = id
    · rw [hki, hgone] at hk
      cases hk
    · rwa [← hkeep k hki]
  have hnone : contents t id = none := by rw [contents, hgone]; rfl
  rcases hcases with ⟨hcrit, hfc⟩ | hmerge
  · refine ⟨h.mono hsub hdep (by rw [hcrit]) ?_ (by rw [hcrit, hdate]; exact h.dates), ?_, hnone⟩
    · intro r hr
      rw [hcrit]
      rcases hfc with hfc | ⟨k, sub, hk, hfc⟩
      · exact h.merged r (hfc ▸ hr)
      · exact h.allocated k sub r (hsub k sub (by rw [getSubscription, hsubs]; exact hk))
          (hfc ▸ hr)
    · intro k hk
      exact contents_congr (hkeep k hk) fun sub r _ _ => by rw [hcrit]
  · have hcrit := congrArg Prod.fst hmerge
    have hfc := congrArg Prod.snd hmerge
    dsimp only at hcrit hfc
    have hnext : t.shared.criteria.next = s.shared.criteria.next := by
      rw [hcrit, mergeAll_next]
    refine ⟨h.mono hsub hdep (by rw [hnext]) ?_ ?_, ?_, hnone⟩
    · intro r hr
      rw [hnext]
      rw [hfc] at hr
      rcases mergeAll_merged s.shared.criteria s.manager.filterCriteria
        (it.order (s.manager.erase id).values) with hm | hm <;> rw [hm] at hr
      · exact h.merged r hr
      · cases hr
    · intro r d hd
      rw [hcrit] at hd
      rw [hdate]
      exact mergeAll_dates _ _ h.dates r d hd
    · intro k hk
      refine contents_congr (hkeep k hk) fun sub r hks hr => ?_
      rw [hcrit]
      by_cases hm : s.manager.filterCriteria = some r
      · rw [hm, mergeAll_of_covers (hC r hm ⟨k, hk, sub, hks, hr⟩)]
      · rw [mergeAll_get _ _ hm]

/-- What building the criteria of a subscription does: it has an object, the others are as they
were. -/
structure Owns (s : FilterState) (id : String) (sub : Sub) (r : Nat) (m : SubsManager)
    (sh : Shared) : Prop where
  objects : Objects ⟨m, sh⟩
  own : ∃ sub', m.getSubscription id = some sub' ∧ sub'.filterCriteria = some r
  others : ∀ k ≠ id, m.getSubscription k = s.manager.getSubscription k
  merged : m.filterCriteria = s.manager.filterCriteria
  size : m.size = s.manager.size
  next : s.shared.criteria.next ≤ sh.criteria.next
  old : ∀ x < s.shared.criteria.next, sh.criteria.get x = s.shared.criteria.get x
  content : (sh.criteria.get r).content =
    (sub.filterCriteria.map fun x => (s.shared.criteria.get x).content).getD {}

theorem owns_ownFilterCriteria (h : Objects s) {id : String} {sub : Sub}
    (hid : s.manager.getSubscription id = some sub) :
    Owns s id sub (s.manager.ownFilterCriteria id sub s.shared).1
      (s.manager.ownFilterCriteria id sub s.shared).2.1
      (s.manager.ownFilterCriteria id sub s.shared).2.2 := by
  rw [ownFilterCriteria]
  cases hr : sub.filterCriteria with
  | some r =>
    exact ⟨h, ⟨sub, hid, hr⟩, fun _ _ => rfl, rfl, rfl, Nat.le_refl _, fun _ _ => rfl, by rw [hr]; rfl⟩
  | none =>
    constructor
    case objects =>
      refine h.insert rfl h.depends (Nat.le_succ _) ?_ ?_ ?_
      · rintro r ⟨⟩
        exact ⟨Nat.le_refl _, Nat.lt_succ_self _⟩
      · exact fun r hr => Nat.lt_succ_of_lt (h.merged r hr)
      · intro r d hd
        by_cases hrn : r = s.shared.criteria.next
        · subst hrn
          rw [get_alloc_next] at hd
          cases hd
        · refine h.dates r d ?_
          simpa [alloc, hrn] using hd
    case own => exact ⟨_, by rw [getSubscription_insert rfl, if_pos rfl], rfl⟩
    case others =>
      intro k hk
      rw [getSubscription_insert rfl, if_neg hk]
      rfl
    case merged => rfl
    case size => exact size_insert_of_lookup hid
    case next => exact Nat.le_succ _
    case old => exact fun x hx => get_alloc_of_lt _ hx _
    case content => rw [get_alloc_next, hr]; rfl

section

variable {criteria : Store FilterCriteria} {start current date : Date} {subs : List Sub} {n x : Nat}

theorem earliest_spec (h : earliestIfModifiedSince criteria start subs = some current) :
    current.time ≤ start.time ∧
      (∀ sub ∈ subs, ∃ d, ifModifiedSince criteria sub.filterCriteria = some d ∧
        current.time ≤ d.time) ∧
      (current = start ∨ ∃ sub ∈ subs, ifModifiedSince criteria sub.filterCriteria = some current) := by
  -- the induction is over the subscriptions, with the earliest date so far
  induction subs generalizing start with
  | nil =>
    cases h
    exact ⟨le_refl _, nofun, .inl rfl⟩
  | cons sub subs ih =>
    have hcons : earliestIfModifiedSince criteria start (sub :: subs) =
        match ifModifiedSince criteria sub.filterCriteria with
        | some date => earliestIfModifiedSince criteria
            (if date.time < start.time then date else start) subs
        | none => none := by
      rw [earliestIfModifiedSince, List.foldl_cons]
      cases ifModifiedSince criteria sub.filterCriteria with
      | some date =>
        dsimp only
        split <;> rfl
      | none =>
        generalize subs = l
        induction l with
        | nil => rfl
        | cons x l ihl => exact ihl
    rw [hcons] at h
    cases hdate : ifModifiedSince criteria sub.filterCriteria with
    | none =>
      rw [hdate] at h
      cases h
    | some date =>
      rw [hdate] at h
      obtain ⟨hle, hall, hmem⟩ := ih h
      have hmin : current.time ≤ date.time ∧ current.time ≤ start.time := by
        split at hle <;> omega
      refine ⟨hmin.2, ?_, ?_⟩
      · rintro sub' (_ | ⟨_, hsub'⟩)
        · exact ⟨date, hdate, hmin.1⟩
        · exact hall sub' hsub'
      · rcases hmem with hcur | ⟨sub', hsub', hcur⟩
        · split at hcur
          · exact .inr ⟨sub, List.mem_cons_self, hcur ▸ hdate⟩
          · exact .inl hcur
        · exact .inr ⟨sub', List.mem_cons_of_mem _ hsub', hcur⟩

theorem earliest_date_mem (hstart : start.ref < n)
    (hdates : ∀ r d, (criteria.get r).ifModifiedSince = some d → d.ref < n)
    (h : earliestIfModifiedSince criteria start subs = some current) : current.ref < n := by
  rcases (earliest_spec h).2.2 with rfl | ⟨sub, -, hsub⟩
  · exact hstart
  · obtain ⟨r, -, hr⟩ := bind_eq_some_iff.mp hsub
    exact hdates r current hr

theorem setIfModifiedSince_dates (h : ∀ r d, (criteria.get r).ifModifiedSince = some d → d.ref < n)
    (hdate : date.ref < n) (r : Nat) (d : Date)
    (hd : ((setIfModifiedSince x date criteria).get r).ifModifiedSince = some d) : d.ref < n := by
  by_cases hrx : r = x
  · subst hrx
    rw [setIfModifiedSince, get_set_self] at hd
    cases hd
    exact hdate
  · rw [setIfModifiedSince, get_set_of_ne _ hrx] at hd
    exact h r d hd

theorem setIfModifiedSince_content
    (h : (criteria.get x).ifModifiedSince.map Date.time = some date.time) :
    ((setIfModifiedSince x date criteria).get x).content = (criteria.get x).content := by
  obtain ⟨d, hd, htime⟩ := map_eq_some_iff.mp h
  rw [setIfModifiedSince, get_set_self, content, content, hd]
  simp [htime]

end

/-- The merged object moves to another date only; the subscription it belongs to, if there is one,
keeps its contents when that date has the time of its own. -/
theorem updateIfModifiedSince_keeps (h : Objects s) {r : Nat} (hr : r < s.shared.criteria.next)
    {old : Option Date} {date : Date} (hdate : date.ref < s.shared.nextDate)
    (hC : s.manager.size ≠ 1 → ∀ x, s.manager.filterCriteria = some x →
      (s.shared.criteria.get x).ifModifiedSince.map Date.ref = old.map Date.ref → ∀ current,
        earliestIfModifiedSince s.shared.criteria date (it.order s.manager.values) = some current →
        ∀ k sub, s.manager.getSubscription k = some sub → sub.filterCriteria = some x →
          (s.shared.criteria.get x).ifModifiedSince.map Date.time = some current.time)
    (ht : s.manager.updateIfModifiedSince it r old date s.shared = (t.manager, t.shared)) :
    Objects t ∧ ∀ k, contents t k = contents s k := by
  rw [updateIfModifiedSince] at ht
  split at ht
  case isTrue =>
    obtain ⟨hm, hsh⟩ := Prod.mk.inj ht
    refine ⟨h.mono ?_ ?_ (by rw [← hsh]) ?_ (by rw [← hsh]; exact h.dates), fun k => ?_⟩
    · rw [← hm]
      exact fun _ _ hk => hk
    · rw [← hm]
      exact h.depends
    · rw [← hm, ← hsh]
      rintro x ⟨⟩
      exact hr
    · exact contents_congr (by rw [← hm]; rfl) fun _ _ _ _ => by rw [← hsh]
  case isFalse hsize =>
    have hsame : (s.manager, s.shared) = (t.manager, t.shared) → t = s := fun heq => by
      obtain ⟨hm, hsh⟩ := Prod.mk.inj heq
      cases s
      cases t
      cases hm
      cases hsh
      rfl
    split at ht
    case isFalse =>
      rw [hsame ht]
      exact ⟨h, fun _ => rfl⟩
    case isTrue href =>
      cases hearliest : earliestIfModifiedSince s.shared.criteria date
          (it.order s.manager.values) with
      | none =>
        rw [hearliest] at ht
        rw [hsame ht]
        exact ⟨h, fun _ => rfl⟩
      | some current =>
        rw [hearliest] at ht
        have hcurrent := earliest_date_mem hdate h.dates hearliest
        cases hfc : s.manager.filterCriteria with
        | some x =>
          rw [hfc] at ht href
          obtain ⟨hm, hsh⟩ := Prod.mk.inj ht
          refine ⟨h.mono (by rw [← hm]; exact fun _ _ hk => hk) (by rw [← hm]; exact h.depends)
            (by rw [← hsh]; exact Nat.le_refl _) (by rw [← hm, ← hsh]; exact h.merged) ?_,
            fun k => ?_⟩
          · rw [← hsh]
            exact setIfModifiedSince_dates h.dates hcurrent
          · refine contents_congr (by rw [← hm]) fun sub y hk hy => ?_
            rw [← hsh]
            by_cases hyx : y = x
            · subst hyx
              exact setIfModifiedSince_content (hC hsize y hfc href current hearliest k sub hk hy)
            · rw [setIfModifiedSince, get_set_of_ne _ hyx]
        | none =>
          rw [hfc] at ht
          obtain ⟨hm, hsh⟩ := Prod.mk.inj ht
          refine ⟨h.mono (by rw [← hm]; exact fun _ _ hk => hk) (by rw [← hm]; exact h.depends)
            (by rw [← hsh]; exact Nat.le_succ _) ?_ ?_, fun k => ?_⟩
          · rw [← hm, ← hsh]
            rintro x ⟨⟩
            exact Nat.lt_succ_self _
          · rw [← hsh]
            intro x d hd
            by_cases hx : x = s.shared.criteria.next
            · subst hx
              rw [get_alloc_next] at hd
              cases hd
              exact hcurrent
            · refine h.dates x d ?_
              simpa [alloc, hx] using hd
          · refine contents_congr (by rw [← hm]; rfl) fun sub y hk hy => ?_
            rw [← hsh]
            rw [get_alloc_of_lt _ (h.allocated k sub y hk hy)]

theorem mem_values {m : SubsManager} {sub : Sub} :
    sub ∈ m.values ↔ ∃ k, m.getSubscription k = some sub := by
  rw [values, List.mem_map]
  constructor
  · rintro ⟨⟨k, sub'⟩, hmem, rfl⟩
    exact ⟨k, AList.mem_lookup_iff.mpr hmem⟩
  · rintro ⟨k, hk⟩
    exact ⟨⟨k, sub⟩, AList.mem_lookup_iff.mp hk, rfl⟩

/-- **The successful confirm of a subscription.** -/
theorem successConfirm_isolates {id : String} {time : Int} (h : Objects s)
    (hC : FilterCondition config it s (.successConfirm id time))
    (ht : filterStep config it s (.successConfirm id time) = some t) :
    Objects t ∧ Isolates s (.successConfirm id time) t := by
  obtain ⟨⟨m', sh'⟩, hconf, rfl⟩ := map_eq_some_iff.mp ht
  obtain ⟨sub, hid, heq⟩ := map_eq_some_iff.mp hconf
  have ho := owns_ownFilterCriteria h hid
  revert heq ho
  generalize s.manager.ownFilterCriteria id sub s.shared = p
  obtain ⟨r, m, sh⟩ := p
  intro heq ho
  obtain ⟨sub', hown, hsub'⟩ := ho.own
  set criteria := setIfModifiedSince r ⟨sh.nextDate, time⟩ sh.criteria with hcriteria
  set u : FilterState := ⟨m, { sh with nextDate := sh.nextDate + 1, criteria := criteria }⟩ with hu
  have hobjects := ho.objects
  have hr : r < sh.criteria.next := hobjects.allocated id sub' r hown hsub'
  have hne : ∀ k ≠ id, ∀ sub y, m.getSubscription k = some sub → sub.filterCriteria = some y →
      y ≠ r := fun k hk sub y hks hy hyr =>
    hk (hobjects.distinct k id sub sub' r hks hown (hyr ▸ hy) hsub')
  have hold : ∀ k ≠ id, ∀ sub y, m.getSubscription k = some sub → sub.filterCriteria = some y →
      criteria.get y = s.shared.criteria.get y := fun k hk sub y hks hy => by
    rw [hcriteria, setIfModifiedSince, get_set_of_ne _ (hne k hk sub y hks hy)]
    rw [ho.others k hk] at hks
    exact ho.old y (h.allocated k sub y hks hy)
  have hgetr : (criteria.get r).ifModifiedSince = some ⟨sh.nextDate, time⟩ := by
    rw [hcriteria, setIfModifiedSince, get_set_self]
  have hubjects : Objects u := by
    refine hobjects.mono (fun _ _ hk => hk) hobjects.depends (Nat.le_refl _) hobjects.merged ?_
    have hlt : ∀ x d, (sh.criteria.get x).ifModifiedSince = some d → d.ref < sh.nextDate + 1 :=
      fun x d hd => Nat.lt_succ_of_lt (hobjects.dates x d hd)
    exact setIfModifiedSince_dates hlt (Nat.lt_succ_self _)
  have hdate : (⟨sh.nextDate, time⟩ : Date).ref < u.shared.nextDate := Nat.lt_succ_self _
  have hupdate := updateIfModifiedSince_keeps (t := ⟨m', sh'⟩) hubjects hr hdate ?_ heq
  · obtain ⟨hobj, hcontents⟩ := hupdate
    refine ⟨hobj, fun k hk => ?_, ?_⟩
    · rw [hcontents k]
      exact contents_congr (ho.others k hk) fun sub y hks hy => by
        rw [← ho.others k hk] at hks
        change (criteria.get y).content = _
        rw [hold k hk sub y hks hy]
    · rw [hcontents id]
      have hcontent := ho.content
      have hid' : s.manager.getSubscription id = some sub := hid
      rw [contents, contents, show u.manager.getSubscription id = some sub' from hown, hid']
      simp only [map_some, hsub']
      rw [← hcontent]
      change some (some (criteria.get r).content) = _
      rw [hcriteria, setIfModifiedSince, get_set_self]
      rfl
  · intro hsize x hx href current hcur k subk hk hkx
    have hkmem : subk ∈ it.order m.values := (it.perm _).mem_iff.mpr (mem_values.mpr ⟨k, hk⟩)
    obtain ⟨hstart, hall, hwho⟩ := earliest_spec hcur
    obtain ⟨d, hd, hle⟩ := hall subk hkmem
    have hdx : (criteria.get x).ifModifiedSince = some d := by
      rw [hkx] at hd
      exact hd
    by_cases hki : k = id
    · subst hki
      obtain rfl : sub' = subk := Option.some.inj (hown.symm.trans hk)
      obtain rfl : r = x := Option.some.inj (hsub'.symm.trans hkx)
      rw [hdx] at href
      obtain ⟨d', hd', hdref⟩ := map_eq_some_iff.mp href.symm
      obtain rfl : d = ⟨sh.nextDate, time⟩ := Option.some.inj (hdx.symm.trans hgetr)
      exact absurd (hobjects.dates r d' hd') (by rw [hdref]; exact lt_irrefl _)
    · have hsk := hk
      rw [show u.manager.getSubscription k = m.getSubscription k from rfl, ho.others k hki] at hsk
      have hsx : (s.shared.criteria.get x).ifModifiedSince = some d := by
        rw [← hold k hki subk x hk hkx]
        exact hdx
      obtain ⟨hnow, hothers⟩ := hC (by rw [← ho.size]; exact hsize) x
        (ho.merged ▸ hx) ⟨k, hki, subk, hsk, hkx⟩ d hsx
      change (criteria.get x).ifModifiedSince.map Date.time = some current.time
      rw [hdx, map_some]
      refine congrArg some (le_antisymm ?_ hle)
      rcases hwho with rfl | ⟨sub₁, hsub₁, hdate₁⟩
      · exact hnow
      · obtain ⟨k₁, hk₁⟩ := mem_values.mp ((it.perm _).mem_iff.mp hsub₁)
        obtain ⟨y, hy, hydate⟩ := bind_eq_some_iff.mp hdate₁
        by_cases hk₁i : k₁ = id
        · subst hk₁i
          obtain rfl : sub' = sub₁ := Option.some.inj (hown.symm.trans hk₁)
          obtain rfl : r = y := Option.some.inj (hsub'.symm.trans hy)
          change (criteria.get r).ifModifiedSince = some current at hydate
          obtain rfl : current = ⟨sh.nextDate, time⟩ := Option.some.inj (hydate.symm.trans hgetr)
          exact hnow
        · have hs₁ := hk₁
          rw [show u.manager.getSubscription k₁ = m.getSubscription k₁ from rfl,
            ho.others k₁ hk₁i] at hs₁
          refine hothers k₁ hk₁i sub₁ hs₁ current ?_
          rw [SubsManager.ifModifiedSince, hy, bind_some, ← hold k₁ hk₁i sub₁ y hk₁ hy]
          exact hydate

/-- **One operation** that meets the condition isolates the subscriptions. -/
theorem isolates_of_condition {e : FilterEvent} (h : Objects s) (hC : FilterCondition config it s e)
    (ht : filterStep config it s e = some t) : Objects t ∧ Isolates s e t := by
  cases e with
  | addSubscription id path fc => exact addSubscription_isolates h hC ht
  | removeSubscription id => exact removeSubscription_isolates h hC ht
  | successConfirm id time => exact successConfirm_isolates h hC ht

end Operations

/-! ## Runs -/

/-- A new manager of a resource that depends on the filter criteria. -/
def noSubscription : FilterState := ⟨SubsManager.new true, ⟨0, Store.empty {}, 0⟩⟩

theorem objects_noSubscription : Objects noSubscription where
  depends := rfl
  allocated := by rintro k sub r ⟨⟩
  distinct := by rintro k k' sub sub' r ⟨⟩
  merged := by rintro r ⟨⟩
  dates := by rintro r d ⟨⟩

/-- **The isolation of the filters**: in a run whose operations all meet `FilterCondition`, every
operation leaves the contents of the filter criteria of the other subscriptions, and changes those
of its own by a confirm only, which moves their `ifModifiedSince`. -/
theorem filters_isolated (config : SclConfig) (it : IterationOrder) (es : List FilterEvent)
    (hC : Run.Along (filterStep config it) (FilterCondition config it) noSubscription es) :
    Run.Along (filterStep config it)
      (fun s e => ∀ t, filterStep config it s e = some t → Isolates s e t) noSubscription es :=
  Run.along_of_invariant (I := Objects)
    (fun _ _ _ h hCe ht => ⟨fun _ hu => (isolates_of_condition h hCe hu).2,
      (isolates_of_condition h hCe ht).1⟩) objects_noSubscription hC

/-- The criteria of a subscription to the instances created after a time. -/
def createdAfter (time : Int) : Option FilterCriteria := some { createdAfter := some time }

/-- The second subscription asks for less than the first one: the merged object, that of the first,
covers its criteria. -/
theorem filters_isolated_covered :
    Run.Along (filterStep ⟨10, 10⟩ noOrder)
      (fun s e => ∀ t, filterStep ⟨10, 10⟩ noOrder s e = some t → Isolates s e t) noSubscription
      [.addSubscription "a" [] (createdAfter 10), .addSubscription "b" [] (createdAfter 20)] := by
  refine filters_isolated _ _ _ fun t ht => ⟨fun _ _ h => absurd rfl h, ?_⟩
  cases ht
  intro t ht
  refine ⟨?_, trivial⟩
  rintro - - - r f ⟨⟩ ⟨⟩ -
  exact (mergeFilterCriteria_eq_iff _ _).mp (by decide)

/-- The merge of a second subscription that asks for more overwrites the criteria of the first. -/
theorem filters_isolated_broken :
    ∃ s t, Run.exec (filterStep ⟨10, 10⟩ noOrder) noSubscription
        [.addSubscription "a" [] (createdAfter 10)] = some s ∧
      filterStep ⟨10, 10⟩ noOrder s (.addSubscription "b" [] (createdAfter 5)) = some t ∧
      ¬ Isolates s (.addSubscription "b" [] (createdAfter 5)) t := by
  refine ⟨_, _, rfl, rfl, fun h => ?_⟩
  have ha := h.1 "a" (by decide)
  revert ha
  decide

end Ong.Scl
