import Ong.Scl.ContentInstancesCreation
import Ong.Scl.ContentInstancesOrder
import Ong.Scl.SclTransactionAtomic

/-!
# The timer of the oldest content instance

The age of the instances of a collection is watched by one timer, for the oldest of them.  A
creation records its timer under `/instanceAgeTimerId` and cancels the one under
`/instanceAgeTimer`, and a deletion does the contrary, so that each must come after the other; and
the timer that fires is not followed by one for the next instance.

## Main results

* `ageTimer_of_condition`: the timer is right all along the runs that meet the condition
-/

namespace Ong.Scl

open M2M ContentInstances Volatile SclTransaction List

/-- The maximal age of the instances, in milliseconds. -/
def maxAge (storage : Storage) (path : Path) : Int :=
  match storage.lookup path.dropLast with
  | some (.container c) => c.maxInstanceAge.getD (-1) * 1000
  | _ => 0

/-- The only timer that is armed for the collection is that of its oldest instance; there is none
when it is empty. -/
structure AgeTimer (path : Path) (w : World) : Prop where
  empty : childInstances w.storage path = [] → ∀ t ∈ w.volatile.timers.armed, t.path ≠ path
  oldest : childInstances w.storage path ≠ [] → ∃ o ∈ childInstances w.storage path, ∃ id,
    (∀ d ∈ childInstances w.storage path, o.2.creationTime ≤ d.2.creationTime) ∧
    w.volatile.instanceAgeId.lookup path = some o.2.id ∧
    ∀ t, t ∈ w.volatile.timers.armed ∧ t.path = path ↔
      t = ⟨id, path, o.2.creationTime + maxAge w.storage path⟩

/-! ## The condition -/

/-- No timer is armed for the collection but the recorded one. -/
def OnlyTimer (path : Path) (recorded : Option Nat) (v : Volatile) : Prop :=
  ∀ t ∈ v.timers.armed, t.path = path → recorded = some t.id

/-- The value of an expression without overflow. -/
def InLong (x : Int) : Prop := -2 ^ 63 ≤ x ∧ x < 2 ^ 63

/-- The delays until the instances expire do not overflow. -/
def DelaysFit (path : Path) (storage : Storage) (now : Int)
    (instances : List (String × ContentInstance)) : Prop :=
  ∀ c ∈ instances, InLong (c.2.creationTime + maxAge storage path - now)

instance (path : Path) (recorded : Option Nat) (v : Volatile) :
    Decidable (OnlyTimer path recorded v) := inferInstanceAs (Decidable (∀ _ ∈ _, _))

instance (x : Int) : Decidable (InLong x) := inferInstanceAs (Decidable (_ ∧ _))

instance (path : Path) (storage : Storage) (now : Int) (instances : List (String × ContentInstance)) :
    Decidable (DelaysFit path storage now instances) := inferInstanceAs (Decidable (∀ _ ∈ _, _))

/-- The instances that are too old at a start. -/
def expired (storage : Storage) (path : Path) (now : Int) : List (String × ContentInstance) :=
  (childInstances storage path).filter fun c => c.2.creationTime < now - maxAge storage path

section Condition

variable (config : SclConfig) (it : IterationOrder)

/-- The transaction commits. -/
def Executes (faults : Faults) (t : SclTransaction) (w : World) : Prop :=
  (t.execute config it faults w.storage w.volatile).executed = true

/-- **The condition** on an event: the timer that is armed is the one that the event cancels, the
names stay in the order of the creation times, no delay overflows, and a transaction that fails
restores the timers.  A timer only fires for the last instance, and a start finds at most four
expired instances. -/
def AgeCondition (path : Path) (w : World) (e : ContentInstancesEvent) : Prop :=
  (∀ c t, e.creation? w.storage path = some c → c.transaction = .ok t →
    (Executes config it c.faults t w →
      OnlyTimer path (w.volatile.instanceAgeTimer.lookup path) w.volatile ∧
        StrictlyInOrder (childInstances w.storage path ++ named c.instances) ∧
          DelaysFit path w.storage c.now (childInstances w.storage path ++ named c.instances)) ∧
    (¬ Executes config it c.faults t w →
      childInstances w.storage path = [] ∨
        RestoreCondition config it c.faults w.storage t w.volatile)) ∧
  match e with
  | .delete id now faults =>
    ∀ ci r, w.storage.lookup (childPath path id) = some (.contentInstance ci) →
      w.storage.lookup path = some (.contentInstances r) →
      (Executes config it faults (deleteTransaction path r id ci now) w →
        w.volatile.instanceAgeId.lookup path = some ci.id →
          OnlyTimer path (w.volatile.instanceAgeTimerId.lookup path) w.volatile ∧
            DelaysFit path w.storage now (childInstances w.storage path)) ∧
      (¬ Executes config it faults (deleteTransaction path r id ci now) w →
        RestoreCondition config it faults w.storage (deleteTransaction path r id ci now) w.volatile)
  | .timeout timer now faults =>
    -- the source looks the instance up by the text of the attribute, also when it is missing
    let id := (w.volatile.instanceAgeId.lookup path).getD "null"
    ∀ ci r, w.storage.lookup (childPath path id) = some (.contentInstance ci) →
      w.storage.lookup path = some (.contentInstances r) →
        Executes config it faults (timeoutTransaction path r id ci now)
          { w with volatile := w.volatile.cancelTimer (some timer) } ∧
        ∀ c ∈ childInstances w.storage path, c.1 = id
  | .start now fault faults =>
    InLong (now - maxAge w.storage path) ∧ DelaysFit path w.storage now (childInstances w.storage path) ∧
      (∀ c ∈ childInstances w.storage path, c.2.creationTime ≠ now - maxAge w.storage path) ∧
      -- a start searches at most four expired instances
      (expired w.storage path now).length ≤ 4 ∧
      ∀ t v, reload w.storage path now fault .initial = some (t, v) →
        ¬ Executes config it faults t ⟨w.storage, v⟩ → expired w.storage path now = []
  | _ => True

end Condition

variable {it : IterationOrder} {config : SclConfig} {faults : Faults}

section Operations

variable {t : SclTransaction}

theorem toLong_of_inLong {x : Int} (h : InLong x) : toLong x = x := by
  obtain ⟨hle, hlt⟩ := h
  unfold toLong
  rw [Int.bmod_eq_of_le] <;> omega

theorem cancelOldTimer_instanceAgeId (op : CisChildCreateOp) (v : Volatile) :
    (op.cancelOldTimer v).instanceAgeId = v.instanceAgeId := by
  unfold CisChildCreateOp.cancelOldTimer
  split <;> rfl

/-- **A creation** arms its timer once it has cancelled the one under `/instanceAgeTimer`; when it
fails, no more timers are armed than before. -/
theorem run_cisChildCreate {op : CisChildCreateOp} (hop : t.transientOps = [.cisChildCreate op])
    (w : World) :
    (Executes config it faults t w ∧
      0 ≤ instanceAgeDelay op.lastCiCreationDate op.maxInstanceAge op.now ∧
      batchModify w.storage t.modifications =
        some (run config it faults t w).storage ∧
      ∃ id, (run config it faults t w).volatile =
        { op.cancelOldTimer w.volatile with
          timers := (op.cancelOldTimer w.volatile).timers.start op.path
            (op.now + instanceAgeDelay op.lastCiCreationDate op.maxInstanceAge op.now)
          instanceAgeTimerId := (op.cancelOldTimer w.volatile).instanceAgeTimerId.insert op.path id
          instanceAgeId :=
            (op.cancelOldTimer w.volatile).instanceAgeId.insert op.path op.lastCiId }) ∨
    (¬ Executes config it faults t w ∧
      (run config it faults t w).storage = w.storage ∧
      (∀ timer ∈ (run config it faults t w).volatile.timers.armed,
        timer ∈ w.volatile.timers.armed) ∧
      ∀ p ≠ op.path, (run config it faults t
        w).volatile.instanceAgeId.lookup p = w.volatile.instanceAgeId.lookup p) := by
  obtain ⟨ms, ops⟩ := t
  subst hop
  have hcancel : ∀ t ∈ (op.cancelOldTimer w.volatile).timers.armed,
      t ∈ w.volatile.timers.armed := by
    unfold CisChildCreateOp.cancelOldTimer
    split
    · exact fun t ht => (Timers.mem_cancel.mp ht).1
    · exact fun t ht => ht
  have hids := cancelOldTimer_instanceAgeId op w.volatile
  rcases op.prepare_cases (faults.prepare.headD false) w.volatile with
    ⟨-, hdelay, hprepare⟩ | ⟨-, hprepare⟩
  all_goals
    have hprep : (TransientOp.cisChildCreate op).prepare config it w.storage
        ⟨faults.prepare, ms, w.volatile⟩ = _ := TransientOp.prepare_cisChildCreate hprepare
    have hexecute := execute_single ms (.cisChildCreate op) hprep
    unfold run Executes
  · rcases hexecute with ⟨storage', -, hmodify, heq⟩ | ⟨-, heq⟩
    · rw [heq]
      exact .inl ⟨rfl, hdelay, hmodify, _, rfl⟩
    · rw [heq]
      refine .inr ⟨nofun, rfl, fun t ht => ?_, fun p hp => ?_⟩
      · obtain ⟨ht, hne⟩ := Timers.mem_cancel.mp ht
        rcases Timers.mem_start.mp ht with rfl | ht
        · exact absurd rfl hne
        · exact hcancel t ht
      · exact (AList.lookup_insert_ne hp).trans (by rw [hids])
  · rcases hexecute with ⟨storage', hprepared, -⟩ | ⟨-, heq⟩
    · cases hprepared
    · rw [heq]
      refine .inr ⟨nofun, rfl, hcancel, fun p _ => ?_⟩
      change (op.cancelOldTimer w.volatile).instanceAgeId.lookup p = _
      rw [hids]

/-- **A deletion** that commits: nothing for an instance that is not watched; else the timer under
`/instanceAgeTimerId` is cancelled, and one is armed for the next instance when there is one. -/
theorem run_cisChildDelete {op : CisChildDeleteOp} (hop : t.transientOps = [.cisChildDelete op])
    {w : World} (h : Executes config it faults t w) :
    batchModify w.storage t.modifications =
      some (run config it faults t w).storage ∧
    (w.volatile.instanceAgeId.lookup op.path ≠ some op.childResource.id ∧
      (run config it faults t w).volatile = w.volatile ∨
    w.volatile.instanceAgeId.lookup op.path = some op.childResource.id ∧
      ((∃ lastCi maxInstanceAge id, op.Starts w.storage lastCi maxInstanceAge ∧
        (run config it faults t w).volatile =
          { w.volatile.cancelTimer (w.volatile.instanceAgeTimerId.lookup op.path) with
            timers := (w.volatile.cancelTimer
                (w.volatile.instanceAgeTimerId.lookup op.path)).timers.start op.path
              (op.now + instanceAgeDelay lastCi.creationTime maxInstanceAge op.now)
            instanceAgeTimer := w.volatile.instanceAgeTimer.insert op.path id
            instanceAgeId := w.volatile.instanceAgeId.insert op.path lastCi.id }) ∨
      op.next w.storage = .ok none ∧
        (run config it faults t w).volatile =
          w.volatile.cancelTimer (w.volatile.instanceAgeTimerId.lookup op.path))) := by
  obtain ⟨ms, ops⟩ := t
  subst hop
  unfold Executes at h
  rcases op.prepare_cases w.storage (faults.prepare.headD false) w.volatile with
    ⟨hne, hprepare⟩ | ⟨heq, ⟨lastCi, age, -, hstarts, hprepare⟩ | ⟨-, hprepare⟩⟩
  all_goals
    have hprep : (TransientOp.cisChildDelete op).prepare config it w.storage
        ⟨faults.prepare, ms, w.volatile⟩ = _ := TransientOp.prepare_cisChildDelete hprepare
    unfold run
    rcases execute_single ms (.cisChildDelete op) hprep with
      ⟨storage', hprepared, hmodify, hexecute⟩ | ⟨-, hexecute⟩
  · rw [hexecute]
    exact ⟨hmodify, .inl ⟨hne, rfl⟩⟩
  · rw [hexecute] at h
    cases h
  · rw [hexecute]
    exact ⟨hmodify, .inr ⟨heq, .inl ⟨lastCi, age, _, hstarts, rfl⟩⟩⟩
  · rw [hexecute] at h
    cases h
  · rw [hexecute]
    exact ⟨hmodify, .inr ⟨heq, .inr ⟨(of_decide_eq_true hprepared).2, rfl⟩⟩⟩
  · rw [hexecute] at h
    cases h

end Operations

/-! ## The invariant -/

/-- What the storage keeps: the container and the collection, and instances whose ids are their
names, in the order of the creation times. -/
structure AgeStorage (path : Path) (c : Container) (storage : Storage) : Prop where
  container : storage.lookup path.dropLast = some (.container c)
  collection : ∃ r, storage.lookup path = some (.contentInstances r)
  ids : ∀ x ∈ childInstances storage path, x.2.id = x.1
  inOrder : StrictlyInOrder (childInstances storage path)

structure AgeInv (path : Path) (c : Container) (w : World) : Prop where
  stored : AgeStorage path c w.storage
  timer : AgeTimer path w
  others : ∀ p ≠ path, w.volatile.instanceAgeId.lookup p = none

variable {c : Container} {path : Path} {w w' : World}

section Invariant

variable {storage storage' : Storage}

theorem AgeStorage.maxAge_eq (h : AgeStorage path c storage) :
    maxAge storage path = c.maxInstanceAge.getD (-1) * 1000 := by
  unfold maxAge
  rw [h.container]

theorem AgeStorage.path_ne (h : AgeStorage path c storage) : path.dropLast ≠ path := by
  intro heq
  obtain ⟨r, hr⟩ := h.collection
  have hc := h.container
  rw [heq, hr] at hc
  cases hc

theorem AgeStorage.batch (h : AgeStorage path c storage) {cs : List ContentInstance}
    {names : List String} {r : ContentInstances}
    (hinOrder : StrictlyInOrder (childInstances storage path ++ named cs))
    (hbatch : Batch cs names r path storage storage') : AgeStorage path c storage' := by
  have hmem := mem_childInstances_batch hbatch
  refine ⟨?_, ⟨r, hbatch.collection⟩, fun x hx => ?_, hinOrder.mono fun x hx => ?_⟩
  · rw [hbatch.other _ h.path_ne fun name => (childPath_ne path name).2.symm]
    exact h.container
  · rcases (hmem x).mp hx with hnew | ⟨hold, -⟩
    · exact (mem_named.mp hnew).2
    · exact h.ids x hold
  · rcases (hmem x).mp hx with hnew | ⟨hold, -⟩
    · exact mem_append_right _ hnew
    · exact mem_append_left _ hold

theorem AgeStorage.removed (h : AgeStorage path c storage) {names : List String}
    {r : ContentInstances} (hbatch : Batch [] names r path storage storage') :
    AgeStorage path c storage' :=
  h.batch (h.inOrder.mono fun x hx => by
    rwa [named, map_nil, append_nil] at hx) hbatch

theorem ageTimer_of_started {o : String × ContentInstance} {id : Nat} {ts : List ResourceTimer}
    (ho : o ∈ childInstances w.storage path)
    (hle : ∀ d ∈ childInstances w.storage path, o.2.creationTime ≤ d.2.creationTime)
    (hid : w.volatile.instanceAgeId.lookup path = some o.2.id)
    (harmed : ∀ t, t ∈ w.volatile.timers.armed ↔
      t = ⟨id, path, o.2.creationTime + maxAge w.storage path⟩ ∨ t ∈ ts)
    (hnone : ∀ t ∈ ts, t.path ≠ path) : AgeTimer path w := by
  refine ⟨fun hempty => ?_, fun _ => ⟨o, ho, id, hle, hid, fun t => ?_⟩⟩
  · rw [hempty] at ho
    cases ho
  · rw [harmed]
    constructor
    · rintro ⟨rfl | ht, hpath⟩
      · rfl
      · exact absurd hpath (hnone t ht)
    · rintro rfl
      exact ⟨.inl rfl, rfl⟩

theorem ageTimer_of_empty (hempty : childInstances w.storage path = [])
    (hnone : ∀ t ∈ w.volatile.timers.armed, t.path ≠ path) : AgeTimer path w :=
  ⟨fun _ => hnone, fun h => absurd hempty h⟩

theorem AgeInv.restored (h : AgeInv path c w) (hstorage : w'.storage = w.storage)
    (hrestored : Restored w.volatile w'.volatile) : AgeInv path c w' := by
  refine ⟨?_, ⟨fun hempty => ?_, fun hnonempty => ?_⟩, fun p hp => ?_⟩
  · rw [hstorage]
    exact h.stored
  · rw [hstorage] at hempty
    intro t ht
    exact h.timer.empty hempty t ((hrestored.timers t).mp ht)
  · rw [hstorage] at hnonempty ⊢
    obtain ⟨o, ho, id, hle, hid, harmed⟩ := h.timer.oldest hnonempty
    refine ⟨o, ho, id, hle, ?_, fun t => ?_⟩
    · rw [hrestored.instances, hid]
    · rw [hrestored.timers, harmed]
  · rw [hrestored.instances]
    exact h.others p hp

theorem AgeInv.failed {t : SclTransaction} (h : AgeInv path c w)
    (hrestore : RestoreCondition config it faults w.storage t w.volatile)
    (hnot : ¬ Executes config it faults t w) :
    AgeInv path c (run config it faults t w) := by
  obtain ⟨hstorage, hrestored⟩ := execute_restores hrestore (Bool.eq_false_iff.mpr hnot)
  exact h.restored hstorage hrestored

theorem OnlyTimer.cancelled {v : Volatile} {recorded : Option Nat} (h : OnlyTimer path recorded v) :
    ∀ t ∈ (v.cancelTimer recorded).timers.armed, t.path ≠ path := by
  intro t ht hpath
  obtain ⟨ht, hne⟩ := Timers.mem_cancel.mp ht
  exact hne (h t ht hpath).symm

theorem OnlyTimer.cancelledOld {op : CisChildCreateOp} {v : Volatile}
    (h : OnlyTimer op.path (v.instanceAgeTimer.lookup op.path) v) :
    ∀ t ∈ (op.cancelOldTimer v).timers.armed, t.path ≠ op.path := by
  unfold CisChildCreateOp.cancelOldTimer
  cases hold : v.instanceAgeTimer.lookup op.path with
  | some oldTimerId =>
    rw [hold] at h
    exact h.cancelled
  | none =>
    rw [hold] at h
    intro t ht hpath
    cases h t ht hpath

theorem due_eq {creationTime maxInstanceAge now : Int}
    (h : InLong (creationTime + maxInstanceAge * 1000 - now)) :
    now + instanceAgeDelay creationTime maxInstanceAge now =
      creationTime + maxInstanceAge * 1000 := by
  unfold instanceAgeDelay
  rw [toLong_of_inLong h]
  omega

end Invariant

variable {storage : Storage}

section Creations

variable {w : World}

theorem ageOps_oldest {cs : List ContentInstance} {lastDate : Int} {lastId : String} {now : Int}
    {t : Trimming} (hinOrder : StrictlyInOrder (childInstances storage path))
    (hage : 0 < c.maxInstanceAge.getD (-1)) (hlast : IsOldest cs (some (lastDate, lastId))) :
    ∃ op : CisChildCreateOp,
      ageOps storage path c (some (lastDate, lastId)) now t = [.cisChildCreate op] ∧
        op.path = path ∧ op.now = now ∧ op.maxInstanceAge = c.maxInstanceAge.getD (-1) ∧
          IsOldest (cs ++ (remaining storage path t).map Prod.snd)
            (some (op.lastCiCreationDate, op.lastCiId)) := by
  obtain ⟨ci, hci, hdate, hid, hle⟩ := hlast
  have hleft : ∀ ci' ∈ (remaining storage path t).map Prod.snd, ∃ d ∈ childInstances storage path,
      isAfter t.lastCiCreationTimeToDelete d.2 = true ∧ d.2 = ci' := by
    intro ci' hci'
    obtain ⟨d, hd, rfl⟩ := mem_map.mp hci'
    obtain ⟨hstored, hafter⟩ := mem_filter.mp hd
    exact ⟨d, hstored, hafter, rfl⟩
  unfold ageOps
  dsimp only
  rw [if_pos hage]
  cases hfound : search storage path (isAfter t.lastCiCreationTimeToDelete) 1 with
  | nil =>
    refine ⟨_, rfl, rfl, rfl, rfl, ci, mem_append_left _ hci, hdate, hid, fun ci' hci' => ?_⟩
    rcases mem_append.mp hci' with hci' | hci'
    · exact hle ci' hci'
    · obtain ⟨d, hd, hafter, -⟩ := hleft ci' hci'
      rw [search_eq_nil hfound d hd] at hafter
      cases hafter
  | cons first found =>
    obtain ⟨hstored, hafter, hleast⟩ := search_first hfound
    have hfirst : ∀ ci' ∈ (remaining storage path t).map Prod.snd,
        first.2.creationTime ≤ ci'.creationTime := by
      intro ci' hci'
      obtain ⟨d, hd, hafter', rfl⟩ := hleft ci' hci'
      exact hinOrder.le_of_name_le hstored hd (hleast d hd hafter')
    dsimp only
    split
    · next hlater =>
      refine ⟨_, rfl, rfl, rfl, rfl, ci, mem_append_left _ hci, hdate, hid, fun ci' hci' => ?_⟩
      rcases mem_append.mp hci' with hci' | hci'
      · exact hle ci' hci'
      · have := hfirst ci' hci'
        dsimp only
        omega
    · next hearlier =>
      refine ⟨_, rfl, rfl, rfl, rfl, first.2, mem_append_right _ ?_, rfl, rfl,
        fun ci' hci' => ?_⟩
      · exact mem_map_of_mem (mem_filter.mpr ⟨hstored, hafter⟩)
      · rcases mem_append.mp hci' with hci' | hci'
        · have := hle ci' hci'
          dsimp only
          omega
        · exact hfirst ci' hci'

theorem last_of_refusal {last : Option (Int × String)} {nb size now : Int}
    (hage : 0 < c.maxInstanceAge.getD (-1)) (h : refusal c last nb size now = none) :
    ∃ date id, last = some (date, id) := by
  rcases last with _ | ⟨date, id⟩
  · unfold refusal at h
    dsimp only at h
    rw [if_pos hage] at h
    split at h
    · cases h
    · split at h <;> cases h
  · exact ⟨date, id, rfl⟩

/-- **A creation** after a deletion, or in an empty collection. -/
theorem AgeInv.created (h : AgeInv path c w) (hage : 0 < c.maxInstanceAge.getD (-1))
    {cs : List ContentInstance} {last : Option (Int × String)} {nb size now : Int}
    {t : SclTransaction} (hlast : IsOldest cs last)
    (ht : createTransaction w.storage path cs last nb size now = .ok t)
    (hexecutes : Executes config it faults t w →
      OnlyTimer path (w.volatile.instanceAgeTimer.lookup path) w.volatile ∧
        StrictlyInOrder (childInstances w.storage path ++ named cs) ∧
          DelaysFit path w.storage now (childInstances w.storage path ++ named cs))
    (hfails : ¬ Executes config it faults t w →
      childInstances w.storage path = [] ∨ RestoreCondition config it faults w.storage t w.volatile) :
    AgeInv path c (run config it faults t w) := by
  obtain ⟨r, hr⟩ := h.stored.collection
  obtain ⟨hrefusal, trimming, r', htrim, -, -, -, hmodifications, hops⟩ :=
    createTransaction_eq_ok h.stored.container hr ht
  obtain ⟨lastDate, lastId, rfl⟩ := last_of_refusal hage hrefusal
  have hwatch : ∃ op : CisChildCreateOp,
      ageOps w.storage path c (some (lastDate, lastId)) now trimming = [.cisChildCreate op] ∧
        op.path = path ∧ op.now = now ∧ op.maxInstanceAge = c.maxInstanceAge.getD (-1) ∧
          IsOldest (cs ++ (remaining w.storage path trimming).map Prod.snd)
            (some (op.lastCiCreationDate, op.lastCiId)) := ageOps_oldest h.stored.inOrder hage hlast
  obtain ⟨op, hop, rfl, rfl, hop_age, ci, hci, hdate, hid, hle⟩ := hwatch
  rw [hop] at hops
  rcases run_cisChildCreate hops w with
    ⟨hexec, -, hmodify, timerId, hvolatile⟩ | ⟨hnot, hstorage, harmed, hothers⟩
  · obtain ⟨honly, hinOrder, hfit⟩ := hexecutes hexec
    rw [hmodifications] at hmodify
    have hbatch := batch_of_batchModify hr (trim_stored rfl htrim) hmodify
    have hstored := h.stored.batch hinOrder hbatch
    have hseparates := trim_separates rfl rfl h.stored.inOrder htrim
    generalize run config it faults _ w = w' at hbatch hstored hvolatile ⊢
    have hmem : ∀ x, x ∈ childInstances w'.storage op.path ↔
        x ∈ named cs ∨ x ∈ remaining w.storage op.path trimming := by
      intro x
      rw [mem_childInstances_batch hbatch, remaining, mem_filter]
      exact or_congr_right (and_congr_right fun hx => (hseparates x hx).symm)
    obtain ⟨o, ho, rfl⟩ : ∃ o ∈ childInstances w'.storage op.path, o.2 = ci := by
      rcases mem_append.mp hci with hnew | hleft
      · exact ⟨(ci.id, ci), (hmem _).mpr (.inl (mem_named.mpr ⟨hnew, rfl⟩)), rfl⟩
      · obtain ⟨o, ho, heq⟩ := mem_map.mp hleft
        exact ⟨o, (hmem o).mpr (.inr ho), heq⟩
    have hfit : InLong (op.lastCiCreationDate + op.maxInstanceAge * 1000 - op.now) := by
      rw [← hdate, hop_age, ← h.stored.maxAge_eq]
      refine hfit o (mem_append.mpr ?_)
      rcases (hmem o).mp ho with hnew | hleft
      · exact .inr hnew
      · exact .inl (mem_filter.mp hleft).1
    have harmed : ∀ t, t ∈ w'.volatile.timers.armed ↔
        t = ⟨(op.cancelOldTimer w.volatile).timers.next, op.path,
          o.2.creationTime + maxAge w'.storage op.path⟩ ∨
        t ∈ (op.cancelOldTimer w.volatile).timers.armed := by
      intro t
      rw [hvolatile, hstored.maxAge_eq, hdate, ← hop_age, ← due_eq hfit]
      exact Timers.mem_start
    refine ⟨hstored, ageTimer_of_started ho (fun d hd => ?_) ?_ harmed honly.cancelledOld,
      fun p hp => ?_⟩
    · rw [hdate]
      refine hle d.2 ?_
      rcases (hmem d).mp hd with hnew | hleft
      · exact mem_append_left _ (mem_named.mp hnew).1
      · exact mem_append_right _ (mem_map_of_mem hleft)
    · rw [hvolatile, hid]
      exact AList.lookup_insert _
    · rw [hvolatile]
      exact (AList.lookup_insert_ne hp).trans
        ((congrArg _ (cancelOldTimer_instanceAgeId op w.volatile)).trans (h.others p hp))
  · rcases hfails hnot with hempty | hrestore
    · refine ⟨?_, ageTimer_of_empty ?_ fun t ht => ?_, fun p hp => ?_⟩
      · rw [hstorage]
        exact h.stored
      · rw [hstorage]
        exact hempty
      · exact h.timer.empty hempty t (harmed t ht)
      · rw [hothers p hp]
        exact h.others p hp
    · exact h.failed hrestore hnot

end Creations

section Deletions

theorem next_eq_none {op : CisChildDeleteOp} (h : op.next storage = .ok none) :
    search storage op.path (fun ci => op.childResource.creationTime < ci.creationTime) 1 = [] := by
  unfold CisChildDeleteOp.next at h
  split at h
  · assumption
  · split at h <;> cases h

theorem next_eq_some {op : CisChildDeleteOp} {lastCi : ContentInstance} {maxInstanceAge : Int}
    (hc : storage.lookup op.path.dropLast = some (.container c))
    (h : op.next storage = .ok (some (lastCi, maxInstanceAge))) :
    maxInstanceAge = c.maxInstanceAge.getD (-1) ∧ ∃ name found,
      search storage op.path (fun ci => op.childResource.creationTime < ci.creationTime) 1 =
        (name, lastCi) :: found := by
  unfold CisChildDeleteOp.next at h
  rw [hc] at h
  split at h
  · cases h
  · next name lastCi' found hfound =>
    cases h
    exact ⟨rfl, name, found, hfound⟩

theorem AgeInv.watched (h : AgeInv path c w) {x : String × ContentInstance}
    (hx : x ∈ childInstances w.storage path)
    (hid : w.volatile.instanceAgeId.lookup path = some x.2.id) :
    ∀ d ∈ childInstances w.storage path, d.1 ≠ x.1 → x.2.creationTime < d.2.creationTime := by
  obtain ⟨o, ho, _, hle, hoId, -⟩ := h.timer.oldest (ne_nil_of_mem hx)
  have hsame : o = x := by
    refine eq_of_name_eq ho hx ?_
    rw [← h.stored.ids o ho, ← h.stored.ids x hx]
    exact Option.some.inj (hoId.symm.trans hid)
  subst hsame
  intro d hd hne
  by_cases hlt : d.1 < o.1
  · have := h.stored.inOrder d hd o hx hlt
    have := hle d hd
    omega
  · have hgt : o.1 < d.1 :=
      String.not_le.mp fun hge => hne (String.le_antisymm hge (String.not_lt.mp hlt))
    exact h.stored.inOrder o hx d hd hgt

/-- **A deletion** on request: of another instance than the watched one, or after a creation. -/
theorem AgeInv.deleted (h : AgeInv path c w) {id : String} {ci : ContentInstance}
    {r : ContentInstances} {now : Int}
    (hci : w.storage.lookup (childPath path id) = some (.contentInstance ci))
    (hr : w.storage.lookup path = some (.contentInstances r))
    (hexecutes : Executes config it faults (deleteTransaction path r id ci now) w →
      w.volatile.instanceAgeId.lookup path = some ci.id →
        OnlyTimer path (w.volatile.instanceAgeTimerId.lookup path) w.volatile ∧
          DelaysFit path w.storage now (childInstances w.storage path))
    (hfails : ¬ Executes config it faults (deleteTransaction path r id ci now) w →
      RestoreCondition config it faults w.storage (deleteTransaction path r id ci now) w.volatile) :
    AgeInv path c (run config it faults (deleteTransaction path r id ci now) w) := by
  by_cases hexec : Executes config it faults (deleteTransaction path r id ci now) w
  swap
  · exact h.failed (hfails hexec) hexec
  have hx : (id, ci) ∈ childInstances w.storage path := mem_childInstances.mpr hci
  obtain ⟨hmodify, hcases⟩ := run_cisChildDelete rfl hexec
  have hbatch := batch_delete hr hci hmodify
  have hstored := h.stored.removed hbatch
  generalize run config it faults _ w = w' at hbatch hstored hcases ⊢
  have hmem : ∀ x, x ∈ childInstances w'.storage path ↔
      x ∈ childInstances w.storage path ∧ x.1 ≠ id := by
    intro x
    rw [mem_childInstances_batch hbatch, mem_singleton]
    exact ⟨fun hx => hx.resolve_left not_mem_nil, .inr⟩
  rcases hcases with ⟨hne, hvolatile⟩ | ⟨hwatched, ⟨lastCi, age, timerId, hstarts, hvolatile⟩ |
    ⟨hnext, hvolatile⟩⟩
  · obtain ⟨o, ho, timerId, hle, hoId, harmed⟩ := h.timer.oldest (ne_nil_of_mem hx)
    have ho' : o ∈ childInstances w'.storage path := by
      refine (hmem o).mpr ⟨ho, fun hname => hne ?_⟩
      rw [hoId, eq_of_name_eq ho hx hname]
    refine ⟨hstored, ⟨fun hempty => ?_, fun _ => ⟨o, ho', timerId, ?_, ?_, ?_⟩⟩, ?_⟩
    · rw [hempty] at ho'
      cases ho'
    · exact fun d hd => hle d ((hmem d).mp hd).1
    · rw [hvolatile]
      exact hoId
    · rw [hvolatile, hstored.maxAge_eq, ← h.stored.maxAge_eq]
      exact harmed
    · rw [hvolatile]
      exact h.others
  · obtain ⟨honly, hfit⟩ := hexecutes hexec hwatched
    obtain ⟨rfl, name, found, hfound⟩ := next_eq_some h.stored.container hstarts.1
    obtain ⟨hnext, hlater, hleast⟩ := search_first hfound
    have hlater := of_decide_eq_true hlater
    have hoMem : (name, lastCi) ∈ childInstances w'.storage path := by
      refine (hmem _).mpr ⟨hnext, fun hname => ?_⟩
      have hsame : ci = lastCi := congrArg Prod.snd (eq_of_name_eq hx hnext hname.symm)
      rw [hsame] at hlater
      exact Int.lt_irrefl _ hlater
    have hdue : InLong (lastCi.creationTime + c.maxInstanceAge.getD (-1) * 1000 - now) := by
      rw [← h.stored.maxAge_eq]
      exact hfit _ hnext
    have harmed : ∀ t, t ∈ w'.volatile.timers.armed ↔
        t = ⟨(w.volatile.cancelTimer (w.volatile.instanceAgeTimerId.lookup path)).timers.next, path,
          lastCi.creationTime + maxAge w'.storage path⟩ ∨
        t ∈ (w.volatile.cancelTimer (w.volatile.instanceAgeTimerId.lookup path)).timers.armed := by
      intro t
      rw [hvolatile, hstored.maxAge_eq, ← due_eq hdue]
      exact Timers.mem_start
    refine ⟨hstored, ageTimer_of_started hoMem (fun d hd => ?_) ?_ harmed honly.cancelled,
      fun p hp => ?_⟩
    · obtain ⟨hd, hne⟩ := (hmem d).mp hd
      have hafter := h.watched hx hwatched d hd hne
      exact h.stored.inOrder.le_of_name_le hnext hd (hleast d hd (decide_eq_true hafter))
    · rw [hvolatile]
      exact AList.lookup_insert _
    · rw [hvolatile]
      exact (AList.lookup_insert_ne hp).trans (h.others p hp)
  · obtain ⟨honly, -⟩ := hexecutes hexec hwatched
    refine ⟨hstored, ageTimer_of_empty ?_ fun t ht => ?_, fun p hp => ?_⟩
    · refine eq_nil_iff_forall_not_mem.mpr fun d hd => ?_
      obtain ⟨hd, hne⟩ := (hmem d).mp hd
      have hafter := h.watched hx hwatched d hd hne
      have hnot := of_decide_eq_false (search_eq_nil (next_eq_none hnext) d hd)
      exact hnot hafter
    · rw [hvolatile] at ht
      exact honly.cancelled t ht
    · rw [hvolatile]
      exact h.others p hp

/-- **A timer that fires** for the only instance. -/
theorem AgeInv.timeoutContentInstances (h : AgeInv path c w) {timer : Nat} {now : Int}
    (hC : AgeCondition config it path w (.timeout timer now faults))
    (hw' : timeoutContentInstances config it path timer now faults w = some w') :
    AgeInv path c w' := by
  unfold Scl.timeoutContentInstances at hw'
  split at hw'
  swap
  · cases hw'
  next hfires =>
  obtain ⟨fired, hfired, rfl, hfiredPath, -⟩ := hfires
  have hnonempty : childInstances w.storage path ≠ [] :=
    fun hempty => h.timer.empty hempty fired hfired hfiredPath
  obtain ⟨o, ho, timerId, -, hoId, harmed⟩ := h.timer.oldest hnonempty
  obtain ⟨r, hr⟩ := h.stored.collection
  have hlookup : w.storage.lookup (childPath path o.2.id) = some (.contentInstance o.2) := by
    rw [h.stored.ids o ho]
    exact mem_childInstances.mp ho
  have hid : (w.volatile.instanceAgeId.lookup path).getD "null" = o.2.id := by
    rw [hoId, Option.getD_some]
  have hC := hC.2
  dsimp only at hC hw'
  rw [hid] at hC hw'
  rw [hlookup, hr] at hw'
  dsimp only at hw'
  obtain ⟨hexec, hall⟩ := hC o.2 r hlookup hr
  obtain ⟨hmodify, hcases⟩ := run_cisChildDelete rfl hexec
  rw [Option.some.inj hw'] at hmodify hcases
  have hbatch : Batch [] [o.2.id] (removeInstance r o.2) path w.storage w'.storage :=
    batch_timeout hr hlookup hmodify
  have hstored := h.stored.removed hbatch
  have hnone : w.volatile.instanceAgeId.lookup (childPath path o.2.id) = none :=
    h.others _ (childPath_ne path o.2.id).1
  dsimp only at hcases
  rcases hcases with ⟨-, hvolatile⟩ | ⟨hwatched, -⟩
  swap
  · change w.volatile.instanceAgeId.lookup (childPath path o.2.id) = _ at hwatched
    rw [hnone] at hwatched
    cases hwatched
  refine ⟨hstored, ageTimer_of_empty ?_ fun t ht hpath => ?_, fun p hp => ?_⟩
  · refine eq_nil_iff_forall_not_mem.mpr fun d hd => ?_
    rcases (mem_childInstances_batch hbatch d).mp hd with hnew | ⟨hold, hne⟩
    · cases hnew
    · exact hne (mem_singleton.mpr (hall d hold))
  · rw [hvolatile] at ht
    obtain ⟨ht, hne⟩ := Timers.mem_cancel.mp ht
    rw [(harmed t).mp ⟨ht, hpath⟩, (harmed fired).mp ⟨hfired, hfiredPath⟩] at hne
    exact hne rfl
  · rw [hvolatile]
    exact h.others p hp

end Deletions

section Starts

variable {fault : Bool} {t : SclTransaction}

theorem reload_of_age {now : Int} {v v' : Volatile} {r : ContentInstances}
    (hage : 0 < c.maxInstanceAge.getD (-1))
    (hc : storage.lookup path.dropLast = some (.container c))
    (hr : storage.lookup path = some (.contentInstances r))
    (h : reload storage path now fault v = some (t, v')) :
    let limitDate := toLong (now - c.maxInstanceAge.getD (-1) * 1000)
    t.transientOps = [] ∧
      (∃ r', t.modifications = (search storage path (fun ci => ci.creationTime < limitDate) 4).map
        (fun c => .delete (childPath path c.1)) ++ [.update path (.contentInstances r')]) ∧
      (search storage path (fun ci => limitDate < ci.creationTime) 1 = [] ∧ v' = v ∨
        ∃ o found, search storage path (fun ci => limitDate < ci.creationTime) 1 = o :: found ∧
          v' = { v with
            timers := v.timers.start path
              (now + instanceAgeDelay o.2.creationTime (c.maxInstanceAge.getD (-1)) now)
            instanceAgeTimer := v.instanceAgeTimer.insert path v.timers.next
            instanceAgeId := v.instanceAgeId.insert path o.2.id }) := by
  intro limitDate
  unfold reload at h
  rw [hc, hr] at h
  dsimp only at h
  rw [if_pos hage] at h
  split at h
  · next hnone =>
    cases h
    exact ⟨rfl, ⟨_, rfl⟩, .inl ⟨hnone, rfl⟩⟩
  · next o found hfound =>
    split at h
    · next timerId u hstart =>
      obtain ⟨-, hu⟩ := startResourceTimer_eq_some.mp hstart
      cases hu
      cases h
      exact ⟨rfl, ⟨_, rfl⟩, .inr ⟨_, found, hfound, rfl⟩⟩
    · cases h

theorem run_noOps (h : t.transientOps = []) (w : World) :
    (run config it faults t w).volatile = w.volatile ∧
      (Executes config it faults t w → batchModify w.storage t.modifications =
        some (run config it faults t w).storage) ∧
      (¬ Executes config it faults t w →
        (run config it faults t w).storage = w.storage) := by
  obtain ⟨ms, ops⟩ := t
  subst h
  unfold Executes run execute
  dsimp only
  split
  · next storage' hcommit =>
    refine ⟨rfl, fun _ => ?_, fun hno => absurd rfl hno⟩
    exact (Option.ite_none_right_eq_some.mp hcommit).2
  · exact ⟨rfl, nofun, fun _ => rfl⟩

theorem mem_search_of_length_le {condition : ContentInstance → Bool} (limit : Nat)
    (h : ((childInstances storage path).filter fun c => condition c.2).length ≤ limit)
    (x : String × ContentInstance) :
    x ∈ search storage path condition limit ↔
      x ∈ childInstances storage path ∧ condition x.2 = true := by
  have hlength : (sorted storage path condition).length ≤ limit := by
    unfold sorted
    rwa [length_insertionSort]
  have hall : search storage path condition limit = sorted storage path condition := by
    unfold search
    split
    · refine take_of_length_le ?_
      exact hlength
    · rfl
  rw [hall, mem_sorted]

/-- **A start** that finds at most four expired instances. -/
theorem AgeInv.startContentInstances (h : AgeInv path c w) (hage : 0 < c.maxInstanceAge.getD (-1))
    {now : Int} (hC : AgeCondition config it path w (.start now fault faults))
    (hw' : startContentInstances config it path now fault faults w = some w') :
    AgeInv path c w' := by
  obtain ⟨r, hr⟩ := h.stored.collection
  obtain ⟨⟨t, v⟩, hreload, hrun⟩ := Option.map_eq_some_iff.mp hw'
  obtain ⟨hlong, hfit, hne, hlength, hfails⟩ := hC.2
  obtain ⟨hops, ⟨r', hmodifications⟩, hstarted⟩ :=
    reload_of_age hage h.stored.container hr hreload
  rw [h.stored.maxAge_eq] at hlong hne
  rw [toLong_of_inLong hlong] at hmodifications hstarted
  have hexpired : ∀ x, x ∈ expired w.storage path now ↔ x ∈ childInstances w.storage path ∧
      x.2.creationTime < now - c.maxInstanceAge.getD (-1) * 1000 := by
    intro x
    rw [expired, mem_filter, h.stored.maxAge_eq, decide_eq_true_iff]
  have hrun' : w'.volatile = v ∧ (Executes config it faults t ⟨w.storage, v⟩ →
      batchModify w.storage t.modifications = some w'.storage) ∧
      (¬ Executes config it faults t ⟨w.storage, v⟩ → w'.storage = w.storage) := by
    rw [← hrun]
    exact run_noOps hops _
  obtain ⟨hvolatile, hexecutes, hrefused⟩ := hrun'
  have hleft : AgeStorage path c w'.storage ∧ ∀ x, x ∈ childInstances w'.storage path ↔
      x ∈ childInstances w.storage path ∧
        now - c.maxInstanceAge.getD (-1) * 1000 < x.2.creationTime := by
    by_cases hexec : Executes config it faults t ⟨w.storage, v⟩
    · have hmodify := hexecutes hexec
      rw [hmodifications] at hmodify
      have hfound : ∀ x, x ∈ search w.storage path
          (fun ci => ci.creationTime < now - c.maxInstanceAge.getD (-1) * 1000) 4 ↔
          x ∈ expired w.storage path now := by
        intro x
        rw [hexpired, ← decide_eq_true_iff (p := _ < _)]
        refine mem_search_of_length_le 4 ?_ x
        rw [← h.stored.maxAge_eq]
        exact hlength
      generalize search w.storage path
        (fun ci => ci.creationTime < now - c.maxInstanceAge.getD (-1) * 1000) 4 = found
        at hmodify hfound
      have hbatch := batch_found hr (fun x hx => ((hexpired x).mp ((hfound x).mp hx)).1) hmodify
      refine ⟨h.stored.removed hbatch, fun x => ?_⟩
      rw [mem_childInstances_batch hbatch]
      constructor
      · rintro (hnew | ⟨hold, hname⟩)
        · cases hnew
        · refine ⟨hold, ?_⟩
          have hnot : x ∉ expired w.storage path now :=
            fun hx => hname (mem_map_of_mem ((hfound x).mpr hx))
          rw [hexpired] at hnot
          have := hne x hold
          have : ¬ x.2.creationTime < now - c.maxInstanceAge.getD (-1) * 1000 :=
            fun hlt => hnot ⟨hold, hlt⟩
          omega
      · rintro ⟨hold, hlater⟩
        refine .inr ⟨hold, fun hname => ?_⟩
        obtain ⟨y, hy, heq⟩ := mem_map.mp hname
        obtain ⟨hyOld, hearlier⟩ := (hexpired y).mp ((hfound y).mp hy)
        rw [eq_of_name_eq hyOld hold heq] at hearlier
        omega
    · rw [hrefused hexec]
      refine ⟨h.stored, fun x => ⟨fun hx => ⟨hx, ?_⟩, And.left⟩⟩
      have hnot : x ∉ expired w.storage path now := by
        rw [hfails t v hreload hexec]
        exact not_mem_nil
      rw [hexpired] at hnot
      have := hne x hx
      have : ¬ x.2.creationTime < now - c.maxInstanceAge.getD (-1) * 1000 :=
        fun hlt => hnot ⟨hx, hlt⟩
      omega
  obtain ⟨hstored, hmem⟩ := hleft
  rcases hstarted with ⟨hnone, hv⟩ | ⟨o, found, hfound, hv⟩
  · refine ⟨hstored, ageTimer_of_empty ?_ fun timer htimer => ?_, fun p _ => ?_⟩
    · refine eq_nil_iff_forall_not_mem.mpr fun x hx => ?_
      obtain ⟨hold, hlater⟩ := (hmem x).mp hx
      exact of_decide_eq_false (search_eq_nil hnone x hold) hlater
    · rw [hvolatile, hv] at htimer
      cases htimer
    · rw [hvolatile, hv]
      rfl
  · obtain ⟨ho, hlater, hleast⟩ := search_first hfound
    have hlater := of_decide_eq_true hlater
    have hdue : InLong (o.2.creationTime + c.maxInstanceAge.getD (-1) * 1000 - now) := by
      rw [← h.stored.maxAge_eq]
      exact hfit o ho
    have harmed : ∀ timer, timer ∈ w'.volatile.timers.armed ↔
        timer = ⟨Volatile.initial.timers.next, path,
          o.2.creationTime + maxAge w'.storage path⟩ ∨ timer ∈ Volatile.initial.timers.armed := by
      intro timer
      rw [hvolatile, hv, hstored.maxAge_eq, ← due_eq hdue]
      exact Timers.mem_start
    refine ⟨hstored, ageTimer_of_started ((hmem o).mpr ⟨ho, hlater⟩) (fun d hd => ?_) ?_ harmed nofun,
      fun p hp => ?_⟩
    · obtain ⟨hold, hlater'⟩ := (hmem d).mp hd
      exact h.stored.inOrder.le_of_name_le ho hold (hleast d hold (decide_eq_true hlater'))
    · rw [hvolatile, hv]
      exact AList.lookup_insert _
    · rw [hvolatile, hv]
      exact AList.lookup_insert_ne hp

end Starts

section Runs

theorem AgeInv.createContentInstances (h : AgeInv path c w)
    (hage : 0 < c.maxInstanceAge.getD (-1)) {e : ContentInstancesEvent} {creation : Creation}
    (hc : e.creation? w.storage path = some creation) (hC : AgeCondition config it path w e)
    (hw' : createContentInstances config it creation.transaction creation.faults w = some w') :
    AgeInv path c w' := by
  unfold Scl.createContentInstances at hw'
  split at hw'
  · next t ht =>
    cases hw'
    obtain ⟨last, nb, size, hlast, hcreate⟩ := creation_transaction hc ht
    obtain ⟨hexecutes, hfails⟩ := hC.1 creation t hc ht
    exact h.created hage hlast hcreate hexecutes hfails
  · cases hw'
  · cases hw'
    exact h

theorem AgeInv.deleteContentInstance (h : AgeInv path c w) {id : String} {now : Int}
    {faults : Faults} (hC : AgeCondition config it path w (.delete id now faults)) :
    AgeInv path c (deleteContentInstance config it path id now faults w) := by
  unfold Scl.deleteContentInstance
  split
  · next ci r hci hr =>
    obtain ⟨hexecutes, hfails⟩ := hC.2 ci r hci hr
    exact h.deleted hci hr hexecutes hfails
  · exact h

theorem contentInstancesStep_ageInv (h : AgeInv path c w) (hage : 0 < c.maxInstanceAge.getD (-1))
    {e : ContentInstancesEvent} (hC : AgeCondition config it path w e)
    (hw' : contentInstancesStep config it path w e = some w') : AgeInv path c w' := by
  cases hc : e.creation? w.storage path with
  | some creation =>
    rw [step_creation hc] at hw'
    exact h.createContentInstances hage hc hC hw'
  | none =>
    cases e with
    | delete id now faults =>
      cases hw'
      exact h.deleteContentInstance hC
    | timeout timer now faults => exact h.timeoutContentInstances hC hw'
    | start now fault faults => exact h.startContentInstances hage hC hw'
    | _ => cases hc

theorem ageInv_of_new {storage : Storage} (h : NewContentInstances path storage)
    (hc : storage.lookup path.dropLast = some (.container c)) :
    AgeInv path c ⟨storage, .initial⟩ := by
  refine ⟨⟨hc, ⟨_, h.collection⟩, fun x hx => ?_, fun x hx => ?_⟩,
    ageTimer_of_empty h.empty nofun, fun _ _ => rfl⟩
  all_goals
    rw [h.empty] at hx
    cases hx

/-- **The timer of the oldest instance** is the only one, all along the runs whose events meet the
condition. -/
theorem ageTimer_of_condition (config : SclConfig) (it : IterationOrder) {storage : Storage}
    (hnew : NewContentInstances path storage) (hage : 0 < maxAge storage path)
    (events : List ContentInstancesEvent)
    (hC : Run.Along (contentInstancesStep config it path) (AgeCondition config it path)
      ⟨storage, .initial⟩ events) :
    Run.Visits (contentInstancesStep config it path) (AgeTimer path) ⟨storage, .initial⟩
      events := by
  obtain ⟨c, hc⟩ := hnew.container
  have hinv := ageInv_of_new hnew hc
  rw [hinv.stored.maxAge_eq] at hage
  exact Run.visits_mono (fun _ h => h.timer)
    (Run.visits_of_along (fun _ _ _ (h : AgeInv path c _) hC hs =>
      contentInstancesStep_ageInv h (by omega) hC hs) hinv hC)

/-- Two instances in one creation, the deletion of the oldest, then another creation. -/
theorem ageTimer_create_delete_create :
    Run.Visits (contentInstancesStep ⟨1, 1⟩ noOrder ["container", "contentInstances"])
      (AgeTimer ["container", "contentInstances"]) ⟨newContentInstances, .initial⟩
      [.createFromExternals [⟨some "a", 0, 5, 5⟩, ⟨some "b", 1000, 5, 5⟩] 2000 {},
        .delete "a" 3000 {}, .createFromBytes "c" 5 4000 {}] := by
  refine ageTimer_of_condition ⟨1, 1⟩ noOrder newContentInstances_new (by decide) _ fun w₁ hw₁ =>
    ⟨⟨fun creation t hc ht => ⟨fun _ => ?_, fun hno => ?_⟩, trivial⟩, fun w₂ hw₂ =>
      ⟨⟨nofun, fun ci r hci hr => ⟨fun _ _ => ?_, fun hno => ?_⟩⟩, fun w₃ hw₃ =>
        ⟨⟨fun creation t hc ht => ⟨fun _ => ?_, fun hno => ?_⟩, trivial⟩, trivial⟩⟩⟩
  · cases hc
    decide
  · cases hc
    cases ht
    exact absurd rfl hno
  · cases hw₁
    decide
  · cases hw₁
    cases hci
    cases hr
    exact absurd rfl hno
  · cases hw₁
    cases hw₂
    cases hc
    decide
  · cases hw₁
    cases hw₂
    cases hc
    cases ht
    exact absurd rfl hno

/-- Two creations: both timers are armed. -/
theorem ageTimer_broken :
    ¬ Run.Visits (contentInstancesStep ⟨1, 1⟩ noOrder ["container", "contentInstances"])
      (AgeTimer ["container", "contentInstances"]) ⟨newContentInstances, .initial⟩
      [.createFromBytes "a" 5 0 {}, .createFromBytes "b" 5 1000 {}] := by
  intro h
  have hlast := Run.visits_exec h rfl
  obtain ⟨o, -, id, -, -, harmed⟩ := hlast.oldest (by decide)
  have hfirst := (harmed ⟨0, ["container", "contentInstances"], 10000⟩).mp ⟨by decide, rfl⟩
  have hsecond := (harmed ⟨1, ["container", "contentInstances"], 10000⟩).mp ⟨by decide, rfl⟩
  rw [← hsecond] at hfirst
  cases hfirst

end Runs

end Ong.Scl
