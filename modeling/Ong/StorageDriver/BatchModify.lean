import Mathlib.Data.List.Nodup
import Mathlib.Data.List.Perm.Basic
import Ong.Lib.Program

/-!
# Batches of modifications

A batch of modifications begins one transaction for each storage driver it meets, applies the
modifications in them, and commits them one after the other.  The drivers are a parameter; each of
their calls may throw.  What a batch does is read off drivers that record the calls made of them.

## Main results

* `ends_modifyAll`, `ends_commitAll`, `cleanup_drivers`: what the two loops and the cleanup do
* `batchModify_spec`: the modifications are applied, every transaction is committed or rolled back,
  and a batch that throws with one driver leaves the storage as it was
-/

namespace Ong.StorageDriver.Batch

open Program List

section Model

/-- What is thrown: a `StorageException`, an `SQLException`, or a runtime exception. -/
inductive Failure
  | storage | sql | runtime
  deriving DecidableEq

/-- `Modification`; a configuration gives the name of a driver, or none. -/
structure Modification (ν α β : Type) where
  type : Int
  fullPath : String
  rawDocument : α
  searchAttributes : β
  configuration : Option (Option ν)

def typeCreate : Int := 1

def typeUpdate : Int := 2

def typeDelete : Int := 3

/-- The drivers and their transactions `τ`: whether there is a driver under a name, and the calls,
which may throw. -/
structure Drivers (σ ν τ α β : Type) where
  getService : ν → σ → Bool
  beginTransaction : ν → EStateM Failure σ τ
  create : τ → String → α → β → Option (Option ν) → EStateM Failure σ Unit
  update : τ → String → α → β → Option (Option ν) → EStateM Failure σ Unit
  delete : τ → String → Option (Option ν) → EStateM Failure σ Unit
  commitTransaction : τ → EStateM Failure σ Unit
  rollbackTransaction : τ → EStateM Failure σ Unit

/-- The state of the drivers, and the local variables. -/
structure State (σ ν τ : Type) where
  drivers : σ
  allTransactions : List (ν × τ) := []
  nbExecutedTransactions : ℕ := 0

variable {σ ν τ α β : Type} [DecidableEq ν] (d : Drivers σ ν τ α β) (defaultDriverName : ν)

def findDriverName (config : Option (Option ν)) : ν :=
  (config.bind id).getD defaultDriverName

/-- A call of a driver or of a transaction. -/
def call {γ : Type} (m : EStateM Failure σ γ) : EStateM Failure (State σ ν τ) γ := fun s =>
  match m s.drivers with
  | .ok a t => .ok a { s with drivers := t }
  | .error e t => .error e { s with drivers := t }

/-- The transaction of a driver, begun when it is not there yet. -/
def transactionOf (driverName : ν) : EStateM Failure (State σ ν τ) τ := do
  let s ← get
  match s.allTransactions.lookup driverName with
  | some t => pure t
  | none =>
    if d.getService driverName s.drivers then
      let t ← call (d.beginTransaction driverName)
      modify fun s => { s with allTransactions := s.allTransactions ++ [(driverName, t)] }
      pure t
    else
      -- the call on a null driver
      throw .runtime

/-- The operation of a modification in a transaction. -/
def operation (m : Modification ν α β) (t : τ) : EStateM Failure σ Unit :=
  if m.type = typeCreate then d.create t m.fullPath m.rawDocument m.searchAttributes m.configuration
  else if m.type = typeUpdate then
    d.update t m.fullPath m.rawDocument m.searchAttributes m.configuration
  else if m.type = typeDelete then d.delete t m.fullPath m.configuration
  else throw .sql

/-- The loop over the modifications. -/
def modifyAll : List (Modification ν α β) → EStateM Failure (State σ ν τ) Unit
  | [] => pure ()
  | m :: tabModif => do
    let t ← transactionOf d (findDriverName defaultDriverName m.configuration)
    call (operation d m t)
    modifyAll tabModif

/-- The loop over the transactions that commits them. -/
def commitAll : List (ν × τ) → EStateM Failure (State σ ν τ) Unit
  | [] => pure ()
  | (_, t) :: entries => do
    call (d.commitTransaction t)
    modify fun s => { s with nbExecutedTransactions := s.nbExecutedTransactions + 1 }
    commitAll entries

/-- The drivers after a rollback; what it throws is logged only. -/
def undone (t : τ) (u : σ) : σ :=
  match d.rollbackTransaction t u with
  | .ok _ u => u
  | .error _ u => u

/-- The loop of the cleanup. -/
def rollbackAll : List (ν × τ) → State σ ν τ → State σ ν τ
  | [], s => s
  | (_, t) :: entries, s =>
    if s.nbExecutedTransactions = 0 then
      rollbackAll entries { s with drivers := undone d t s.drivers }
    else rollbackAll entries { s with nbExecutedTransactions := s.nbExecutedTransactions - 1 }

/-- The `finally` block; `order` is the order in which the map is iterated. -/
def cleanup (order : List (ν × τ) → List (ν × τ)) (s : State σ ν τ) : State σ ν τ :=
  if s.nbExecutedTransactions ≠ s.allTransactions.length then
    rollbackAll d (order s.allTransactions) s
  else s

/-- The `try` block. -/
def tryBlock (order : List (ν × τ) → List (ν × τ)) (tabModif : List (Modification ν α β)) :
    EStateM Failure (State σ ν τ) Unit := do
  modifyAll d defaultDriverName tabModif
  let s ← get
  commitAll d (order s.allTransactions)

/-- `batchModify`; an `SQLException` is thrown as a `StorageException`. -/
def batchModify (order : List (ν × τ) → List (ν × τ)) (tabModif : List (Modification ν α β))
    (s : σ) : Option Failure × State σ ν τ :=
  match tryBlock d defaultDriverName order tabModif { drivers := s } with
  | .ok _ s => (none, cleanup d order s)
  | .error e s => (some (if e = .sql then .storage else e), cleanup d order s)

end Model

section Record

variable {σ ν τ α β γ : Type}

/-- A call made of a driver or of its transaction: one that returned, or one that threw. -/
inductive Call (ν α β : Type)
  | began (driverName : ν)
  | create (driverName : ν) (fullPath : String) (rawDocument : α) (searchAttributes : β)
      (configuration : Option (Option ν))
  | update (driverName : ν) (fullPath : String) (rawDocument : α) (searchAttributes : β)
      (configuration : Option (Option ν))
  | delete (driverName : ν) (fullPath : String) (configuration : Option (Option ν))
  | committed (driverName : ν)
  | rolledBack (driverName : ν)
  | threw

/-- A call that is recorded when it is over. -/
def record (c : Call ν α β) (m : EStateM Failure σ γ) :
    EStateM Failure (σ × List (Call ν α β)) γ := fun s =>
  match m s.1 with
  | .ok a u => .ok a (u, s.2 ++ [c])
  | .error e u => .error e (u, s.2 ++ [.threw])

/-- The drivers with a record of their calls; a transaction goes with the name of its driver. -/
def Drivers.recorded (d : Drivers σ ν τ α β) :
    Drivers (σ × List (Call ν α β)) ν (ν × τ) α β where
  getService n s := d.getService n s.1
  beginTransaction n := do
    let t ← record (.began n) (d.beginTransaction n)
    pure (n, t)
  create t path rawDocument attributes config :=
    record (.create t.1 path rawDocument attributes config)
      (d.create t.2 path rawDocument attributes config)
  update t path rawDocument attributes config :=
    record (.update t.1 path rawDocument attributes config)
      (d.update t.2 path rawDocument attributes config)
  delete t path config := record (.delete t.1 path config) (d.delete t.2 path config)
  commitTransaction t := record (.committed t.1) (d.commitTransaction t.2)
  rollbackTransaction t := record (.rolledBack t.1) (d.rollbackTransaction t.2)

namespace Call

def beginOf : Call ν α β → Option ν
  | began n => some n
  | _ => none

def commitOf : Call ν α β → Option ν
  | committed n => some n
  | _ => none

def rollbackOf : Call ν α β → Option ν
  | rolledBack n => some n
  | _ => none

def applies : Call ν α β → Bool
  | create .. | update .. | delete .. => true
  | _ => false

/-- The driver whose transaction the call is made of. -/
def transaction : Call ν α β → Option ν
  | create n .. | update n .. | delete n .. | committed n | rolledBack n => some n
  | _ => none

end Call

/-- The drivers whose transactions began, were committed, and were rolled back. -/
def begun (calls : List (Call ν α β)) : List ν := calls.filterMap Call.beginOf

def committed (calls : List (Call ν α β)) : List ν := calls.filterMap Call.commitOf

def rolledBack (calls : List (Call ν α β)) : List ν := calls.filterMap Call.rollbackOf

/-- The call that a modification asks for, of the transaction of its driver; one of an unknown type
asks for none. -/
def asked (defaultDriverName : ν) (m : Modification ν α β) : Option (Call ν α β) :=
  let n := findDriverName defaultDriverName m.configuration
  if m.type = typeCreate then
    some (.create n m.fullPath m.rawDocument m.searchAttributes m.configuration)
  else if m.type = typeUpdate then
    some (.update n m.fullPath m.rawDocument m.searchAttributes m.configuration)
  else if m.type = typeDelete then some (.delete n m.fullPath m.configuration)
  else none

/-- A transaction is used between its begin and its end. -/
def Orderly (calls : List (Call ν α β)) : Prop :=
  ∀ pre c post n, calls = pre ++ c :: post → c.transaction = some n →
    n ∈ begun pre ∧ n ∉ committed pre ∧ n ∉ rolledBack pre

/-- Something that makes a batch throw: a call that threw, a modification of an unknown type, or a
driver that is not there. -/
def Cause (d : Drivers σ ν τ α β) (defaultDriverName : ν) (tabModif : List (Modification ν α β))
    (calls : List (Call ν α β)) : Prop :=
  .threw ∈ calls ∨ ∃ m ∈ tabModif, asked defaultDriverName m = none ∨
    ∃ u, d.getService (findDriverName defaultDriverName m.configuration) u = false

/-- What a batch promises of the calls that it makes: it throws when one of them threw, and not
without a cause; a driver has one transaction, which is used between its begin and its end, and
committed or rolled back once; the modifications are applied in order, each in the transaction of
its driver, and when the batch returns, all of them are, and nothing is rolled back. -/
structure AllOrNothing (d : Drivers σ ν τ α β) (defaultDriverName : ν)
    (tabModif : List (Modification ν α β)) (thrown : Option Failure)
    (calls : List (Call ν α β)) : Prop where
  throws : .threw ∈ calls → thrown ≠ none
  cause : thrown ≠ none → Cause d defaultDriverName tabModif calls
  once : (begun calls).Nodup
  orderly : Orderly calls
  ended : (committed calls ++ rolledBack calls).Perm (begun calls)
  applied : (calls.filter Call.applies).map some <+: tabModif.map (asked defaultDriverName)
  returned : thrown = none →
    (calls.filter Call.applies).map some = tabModif.map (asked defaultDriverName) ∧
      rolledBack calls = []

end Record

variable {σ ν τ α β δ : Type} {d : Drivers σ ν τ α β} {defaultDriverName n : ν}
  {order : List (ν × τ) → List (ν × τ)} {tabModif pre l : List (Modification ν α β)}
  {m : Modification ν α β} {all : List (ν × τ)} {t : τ} {s : State σ ν τ} {u : σ}
  {done rest : List (ν × τ)}

/-- The transactions of the drivers are atomic: `isOpen t c u` says that a rollback of `t` leads
from `u` to the storage `c`. -/
structure Atomic (d : Drivers σ ν τ α β) (storage : σ → δ) (isOpen : τ → δ → σ → Prop) : Prop where
  begins : ∀ n u, Ends (d.beginTransaction n) (fun t => isOpen t (storage u))
    (fun _ u' => storage u' = storage u) u
  operation : ∀ m t c u, isOpen t c u →
    Ends (operation d m t) (fun _ => isOpen t c) (fun _ => isOpen t c) u
  commit : ∀ t c u, isOpen t c u →
    Ends (d.commitTransaction t) (fun _ _ => True) (fun _ => isOpen t c) u
  rollback : ∀ t c u, isOpen t c u → storage (undone d t u) = c

/-- What holds of the transactions and the drivers: `W pre all` after the modifications `pre`,
`K done all` after the transactions `done` are committed, and `F done all` when, after these,
something has failed. -/
structure Keeps [DecidableEq ν] (d : Drivers σ ν τ α β) (defaultDriverName : ν)
    (tabModif : List (Modification ν α β))
    (W : List (Modification ν α β) → List (ν × τ) → σ → Prop)
    (K F : List (ν × τ) → List (ν × τ) → σ → Prop) : Prop where
  missing : ∀ pre m l, pre ++ m :: l = tabModif → ∀ all u, W pre all u →
    d.getService (findDriverName defaultDriverName m.configuration) u = false → F [] all u
  begins : ∀ pre m l, pre ++ m :: l = tabModif → ∀ all u, W pre all u →
    all.lookup (findDriverName defaultDriverName m.configuration) = none →
    Ends (d.beginTransaction (findDriverName defaultDriverName m.configuration))
      (fun t => W pre (all ++ [(findDriverName defaultDriverName m.configuration, t)]))
      (fun _ => F [] all) u
  operation : ∀ pre m l, pre ++ m :: l = tabModif → ∀ all t u,
    (findDriverName defaultDriverName m.configuration, t) ∈ all → W pre all u →
    Ends (operation d m t) (fun _ => W (pre ++ [m]) all) (fun _ => F [] all) u
  applied : ∀ all u, W tabModif all u → K [] all u
  commit : ∀ p done all u, p ∈ all → p.1 ∉ done.map Prod.fst → K done all u →
    Ends (d.commitTransaction p.2) (fun _ => K (done ++ [p]) all) (fun _ => F done all) u

/-- The state when some transactions are committed, with what holds of the drivers then. -/
structure During (I : List (ν × τ) → List (ν × τ) → σ → Prop) (done : List (ν × τ))
    (s : State σ ν τ) : Prop where
  executed : s.nbExecutedTransactions = done.length
  nodup : (s.allTransactions.map Prod.fst).Nodup
  keeps : I done s.allTransactions s.drivers

section Loops

theorem ends_call {γ : Type} {m : EStateM Failure σ γ} {Q : γ → State σ ν τ → Prop}
    {E : Failure → State σ ν τ → Prop} : Ends (call m) Q E s ↔
      Ends m (fun a t => Q a { s with drivers := t }) (fun e t => E e { s with drivers := t })
        s.drivers := by
  unfold Ends call
  cases m s.drivers <;> rfl

/-- The cleanup rolls back all but the transactions that are committed. -/
theorem rollbackAll_drivers (hdone : s.nbExecutedTransactions = done.length) :
    (rollbackAll d (done ++ rest) s).drivers =
      rest.foldl (fun u p => undone d p.2 u) s.drivers := by
  induction done generalizing s with
  | cons p done ih =>
    rw [length_cons] at hdone
    rw [cons_append, rollbackAll, if_neg (by omega)]
    exact ih (by show s.nbExecutedTransactions - 1 = _; omega)
  | nil =>
    rw [nil_append]
    induction rest generalizing s with
    | nil => rfl
    | cons p rest ih =>
      rw [rollbackAll, if_pos (show s.nbExecutedTransactions = 0 from hdone), foldl_cons]
      exact ih hdone

/-- What is not committed is rolled back. -/
theorem cleanup_drivers (horder : ∀ l, (order l).Perm l)
    (hentries : order s.allTransactions = done ++ rest)
    (hdone : s.nbExecutedTransactions = done.length) :
    (cleanup d order s).drivers = rest.foldl (fun u p => undone d p.2 u) s.drivers := by
  unfold cleanup
  split
  · rw [hentries]
    exact rollbackAll_drivers hdone
  · next hall =>
    have hlen := (horder s.allTransactions).length_eq
    rw [hentries, length_append, ← not_not.mp hall, hdone] at hlen
    obtain rfl : rest = [] := length_eq_zero_iff.mp (by omega)
    rfl

variable [DecidableEq ν] {W : List (Modification ν α β) → List (ν × τ) → σ → Prop}
  {K F : List (ν × τ) → List (ν × τ) → σ → Prop}
  (hK : Keeps d defaultDriverName tabModif W K F)

include hK

theorem ends_transactionOf (hpre : pre ++ m :: l = tabModif)
    (hs : During (fun _ => W pre) [] s) :
    Ends (transactionOf d (findDriverName defaultDriverName m.configuration))
      (fun t s => During (fun _ => W pre) [] s ∧
        (findDriverName defaultDriverName m.configuration, t) ∈ s.allTransactions)
      (fun _ => During F []) s := by
  unfold transactionOf
  simp only [ends_bind, ends_get]
  cases hlookup : s.allTransactions.lookup (findDriverName defaultDriverName m.configuration) with
  | some t =>
    obtain ⟨l, r, hl, -⟩ := lookup_eq_some_iff.mp hlookup
    refine ⟨hs, ?_⟩
    rw [hl]
    exact mem_append_right _ mem_cons_self
  | none =>
    simp only [ends_ite, ends_bind, ends_call, ends_modify, ends_pure, ends_throw]
    refine ⟨fun _ => ?_, fun hservice => ?_⟩
    · refine (hK.begins pre m l hpre _ _ hs.keeps hlookup).mono (fun t u hu => ?_)
        fun _ u hu => ⟨hs.executed, hs.nodup, hu⟩
      refine ⟨⟨hs.executed, ?_, hu⟩, mem_append_right _ mem_cons_self⟩
      rw [map_append]
      refine nodup_append.mpr ⟨hs.nodup, nodup_singleton _, fun a ha b hb => ?_⟩
      obtain ⟨p, hp, rfl⟩ := mem_map.mp ha
      rw [map_cons, map_nil, mem_singleton] at hb
      subst hb
      exact Ne.symm (by simpa using lookup_eq_none_iff.mp hlookup p hp)
    · exact ⟨hs.executed, hs.nodup,
        hK.missing pre m l hpre _ _ hs.keeps (Bool.eq_false_iff.mpr hservice)⟩

/-- The loop over the modifications: all of them are applied, or something has failed and no
transaction is committed. -/
theorem ends_modifyAll (hpre : pre ++ l = tabModif) (hs : During (fun _ => W pre) [] s) :
    Ends (modifyAll d defaultDriverName l) (fun _ => During (fun _ => W tabModif) [])
      (fun _ => During F []) s := by
  induction l generalizing pre s with
  | nil =>
    rw [append_nil] at hpre
    exact hpre ▸ hs
  | cons m l ih =>
    rw [modifyAll, ends_bind]
    refine (ends_transactionOf hK hpre hs).mono (fun t s ⟨hs, hmem⟩ => ?_) fun _ _ h => h
    rw [ends_bind, ends_call]
    refine (hK.operation pre m l hpre _ _ _ hmem hs.keeps).mono (fun _ u hu => ?_)
      fun _ u hu => ⟨hs.executed, hs.nodup, hu⟩
    rw [append_cons] at hpre
    exact ih hpre ⟨hs.executed, hs.nodup, hu⟩

/-- The loop that commits: it ends with the last transaction, or before one of them. -/
theorem ends_commitAll (horder : ∀ l, (order l).Perm l)
    (hentries : order s.allTransactions = done ++ rest) (hs : During K done s) :
    Ends (commitAll d rest) (fun _ s => During K (order s.allTransactions) s)
      (fun _ s => ∃ done rest, order s.allTransactions = done ++ rest ∧ rest ≠ [] ∧
        During F done s) s := by
  induction rest generalizing s done with
  | nil =>
    rw [append_nil] at hentries
    show During K (order s.allTransactions) s
    rwa [hentries]
  | cons p rest ih =>
    have hmem : p ∈ s.allTransactions := (horder _).mem_iff.mp (hentries ▸ by simp)
    have hnew : p.1 ∉ done.map Prod.fst := by
      have hnodup := ((horder s.allTransactions).map Prod.fst).nodup_iff.mpr hs.nodup
      rw [hentries, map_append, nodup_append] at hnodup
      exact fun hp => hnodup.2.2 _ hp _ mem_cons_self rfl
    rw [commitAll, ends_bind, ends_call]
    refine (hK.commit p done _ _ hmem hnew hs.keeps).mono (fun _ u hu => ?_) fun _ u hu =>
      ⟨done, p :: rest, hentries, cons_ne_nil _ _, hs.executed, hs.nodup, hu⟩
    rw [ends_bind, ends_modify]
    rw [append_cons] at hentries
    refine ih hentries ⟨?_, hs.nodup, hu⟩
    rw [length_append, length_singleton, ← hs.executed]

/-- **A batch** ends with all transactions committed, or it throws, and those that are not yet
committed are rolled back. -/
theorem batchModify_eq (horder : ∀ l, (order l).Perm l) (hu : W [] [] u) :
    ∃ s done rest, (batchModify d defaultDriverName order tabModif u).2 = cleanup d order s ∧
      order s.allTransactions = done ++ rest ∧
      ((batchModify d defaultDriverName order tabModif u).1 = none ∧ rest = [] ∧
          During K done s ∨
        (batchModify d defaultDriverName order tabModif u).1 ≠ none ∧ (done = [] ∨ rest ≠ []) ∧
          During F done s) := by
  have hends : Ends (tryBlock d defaultDriverName order tabModif)
      (fun _ s => During K (order s.allTransactions) s)
      (fun _ s => ∃ done rest, order s.allTransactions = done ++ rest ∧
        (done = [] ∨ rest ≠ []) ∧ During F done s) { drivers := u } := by
    have hstart : During (fun _ => W []) [] (ν := ν) (τ := τ) { drivers := u } :=
      ⟨rfl, nodup_nil, hu⟩
    rw [tryBlock, ends_bind]
    refine (ends_modifyAll hK (nil_append _) hstart).mono (fun _ s hs => ?_)
      fun _ s hs => ⟨[], _, rfl, .inl rfl, hs⟩
    refine (ends_commitAll hK horder (nil_append _).symm
      ⟨hs.executed, hs.nodup, hK.applied _ _ hs.keeps⟩).mono (fun _ _ h => h) ?_
    exact fun _ s ⟨done, rest, hentries, hrest, hs⟩ => ⟨done, rest, hentries, .inr hrest, hs⟩
  unfold Ends at hends
  unfold batchModify
  cases htry : tryBlock d defaultDriverName order tabModif { drivers := u } with
  | ok _ s =>
    rw [htry] at hends
    exact ⟨s, _, [], rfl, (append_nil _).symm, .inl ⟨rfl, rfl, hends⟩⟩
  | error e s =>
    rw [htry] at hends
    obtain ⟨done, rest, hentries, hrest, hs⟩ := hends
    exact ⟨s, done, rest, rfl, hentries, .inr ⟨Option.some_ne_none _, hrest, hs⟩⟩

end Loops

section Recorded

variable {c : Call ν α β} {calls : List (Call ν α β)} {rolled : List (ν × (ν × τ))}

theorem ends_record {γ : Type} {f : EStateM Failure σ γ}
    {Q : γ → σ × List (Call ν α β) → Prop} {E : Failure → σ × List (Call ν α β) → Prop} :
    Ends (record c f) Q E (u, calls) ↔
      Ends f (fun a u => Q a (u, calls ++ [c])) (fun e u => E e (u, calls ++ [.threw])) u := by
  unfold Ends record
  dsimp only
  cases f u <;> rfl

theorem begun_concat : begun (calls ++ [c]) = begun calls ++ c.beginOf.toList := by
  rw [begun, filterMap_append]
  cases c <;> rfl

theorem committed_concat : committed (calls ++ [c]) = committed calls ++ c.commitOf.toList := by
  rw [committed, filterMap_append]
  cases c <;> rfl

theorem rolledBack_concat : rolledBack (calls ++ [c]) = rolledBack calls ++ c.rollbackOf.toList := by
  rw [rolledBack, filterMap_append]
  cases c <;> rfl

theorem Orderly.concat (h : Orderly calls) (hc : ∀ n, c.transaction = some n →
    n ∈ begun calls ∧ n ∉ committed calls ∧ n ∉ rolledBack calls) : Orderly (calls ++ [c]) := by
  intro pre c' post n heq hn
  rcases eq_nil_or_concat' post with rfl | ⟨post, last, rfl⟩
  · obtain ⟨rfl, hcall⟩ := append_inj' heq rfl
    obtain rfl := (cons.inj hcall).1
    exact hc n hn
  · have hsplit : calls ++ [c] = (pre ++ c' :: post) ++ [last] := by
      rw [heq, append_assoc]
      rfl
    exact h pre c' post n (append_inj' hsplit rfl).1 hn

/-- A call for a modification is an operation of the transaction of its driver. -/
theorem asked_eq_some (h : asked defaultDriverName m = some c) :
    c.transaction = some (findDriverName defaultDriverName m.configuration) ∧
      c.applies = true ∧ c.beginOf = none ∧ c.commitOf = none ∧ c.rollbackOf = none ∧
        c ≠ .threw := by
  unfold asked at h
  dsimp only at h
  split_ifs at h <;> cases Option.some.inj h <;> exact ⟨rfl, rfl, rfl, rfl, rfl, by rintro ⟨⟩⟩

/-- What the operation of a modification records. -/
theorem operation_recorded {t : ν × τ}
    (ht : t.1 = findDriverName defaultDriverName m.configuration) :
    (∃ c f, asked defaultDriverName m = some c ∧ operation d.recorded m t = record c f) ∨
      (asked defaultDriverName m = none ∧ operation d.recorded m t = throw .sql) := by
  unfold asked operation
  dsimp only
  rw [← ht]
  split_ifs
  · exact .inl ⟨_, _, rfl, rfl⟩
  · exact .inl ⟨_, _, rfl, rfl⟩
  · exact .inl ⟨_, _, rfl, rfl⟩
  · exact .inr ⟨rfl, rfl⟩

/-- The record, after the modifications `pre`, when of the transactions `all` those of `done` are
committed and those of `rolled` are rolled back. -/
structure Tidy (defaultDriverName : ν) (pre : List (Modification ν α β))
    (done rolled all : List (ν × (ν × τ))) (calls : List (Call ν α β)) : Prop where
  owner : ∀ p ∈ all, p.2.1 = p.1
  begun : begun calls = all.map Prod.fst
  committed : committed calls = done.map Prod.fst
  rolledBack : rolledBack calls = rolled.map Prod.fst
  applied : (calls.filter Call.applies).map some = pre.map (asked defaultDriverName)
  orderly : Orderly calls

namespace Tidy

variable {pre : List (Modification ν α β)} {done rolled rest all : List (ν × (ν × τ))}

theorem nil : Tidy (τ := τ) (α := α) (β := β) defaultDriverName [] [] [] [] [] where
  owner := by rintro _ ⟨⟩
  begun := rfl
  committed := rfl
  rolledBack := rfl
  applied := rfl
  orderly pre c post n heq := absurd heq.symm (by simp)

variable (h : Tidy defaultDriverName pre done rolled all calls)

include h

theorem threw : Tidy defaultDriverName pre done rolled all (calls ++ [.threw]) where
  owner := h.owner
  begun := by rw [begun_concat, h.begun]; exact append_nil _
  committed := by rw [committed_concat, h.committed]; exact append_nil _
  rolledBack := by rw [rolledBack_concat, h.rolledBack]; exact append_nil _
  applied := by rw [filter_append, map_append, h.applied]; exact append_nil _
  orderly := h.orderly.concat (by rintro n ⟨⟩)

theorem begins (t : τ) :
    Tidy defaultDriverName pre done rolled (all ++ [(n, n, t)]) (calls ++ [.began n]) where
  owner p hp := by
    rcases mem_append.mp hp with hp | hp
    · exact h.owner p hp
    · rw [mem_singleton.mp hp]
  begun := by rw [begun_concat, h.begun, map_append]; rfl
  committed := by rw [committed_concat, h.committed]; exact append_nil _
  rolledBack := by rw [rolledBack_concat, h.rolledBack]; exact append_nil _
  applied := by rw [filter_append, map_append, h.applied]; exact append_nil _
  orderly := h.orderly.concat (by rintro n ⟨⟩)

theorem operation (hdone : done = []) (hrolled : rolled = [])
    (hm : asked defaultDriverName m = some c)
    (hmem : findDriverName defaultDriverName m.configuration ∈ all.map Prod.fst) :
    Tidy defaultDriverName (pre ++ [m]) done rolled all (calls ++ [c]) := by
  obtain ⟨htransaction, happlies, hbegin, hcommit, hrollback, -⟩ := asked_eq_some hm
  constructor
  case owner => exact h.owner
  case begun => rw [begun_concat, h.begun, hbegin]; exact append_nil _
  case committed => rw [committed_concat, h.committed, hcommit]; exact append_nil _
  case rolledBack => rw [rolledBack_concat, h.rolledBack, hrollback]; exact append_nil _
  case applied =>
    rw [filter_append, filter_cons_of_pos happlies, filter_nil, map_append, h.applied, map_append,
      map_singleton, map_singleton, hm]
  case orderly =>
    refine h.orderly.concat fun n hn => ?_
    obtain rfl := Option.some.inj (htransaction.symm.trans hn)
    rw [h.begun, h.committed, h.rolledBack, hdone, hrolled]
    exact ⟨hmem, not_mem_nil, not_mem_nil⟩

theorem commit {p : ν × (ν × τ)} (hp : p ∈ all) (hdone : p.1 ∉ done.map Prod.fst)
    (hrolled : rolled = []) :
    Tidy defaultDriverName pre (done ++ [p]) rolled all (calls ++ [.committed p.1]) where
  owner := h.owner
  begun := by rw [begun_concat, h.begun]; exact append_nil _
  committed := by rw [committed_concat, h.committed, map_append]; rfl
  rolledBack := by rw [rolledBack_concat, h.rolledBack]; exact append_nil _
  applied := by rw [filter_append, map_append, h.applied]; exact append_nil _
  orderly := h.orderly.concat fun n hn => by
    obtain rfl := Option.some.inj hn
    rw [h.begun, h.committed, h.rolledBack, hrolled]
    exact ⟨mem_map_of_mem hp, hdone, not_mem_nil⟩

theorem rollback {p : ν × (ν × τ)} (hp : p ∈ all) (hdone : p.1 ∉ done.map Prod.fst)
    (hrolled : p.1 ∉ rolled.map Prod.fst) :
    Tidy defaultDriverName pre done (rolled ++ [p]) all (calls ++ [.rolledBack p.1]) where
  owner := h.owner
  begun := by rw [begun_concat, h.begun]; exact append_nil _
  committed := by rw [committed_concat, h.committed]; exact append_nil _
  rolledBack := by rw [rolledBack_concat, h.rolledBack, map_append]; rfl
  applied := by rw [filter_append, map_append, h.applied]; exact append_nil _
  orderly := h.orderly.concat fun n hn => by
    obtain rfl := Option.some.inj hn
    rw [h.begun, h.committed, h.rolledBack]
    exact ⟨mem_map_of_mem hp, hdone, hrolled⟩

/-- The cleanup rolls back what is not committed, transaction by transaction. -/
theorem cleanup (hrollback : ∀ t u, ∃ u', d.rollbackTransaction t u = .ok () u')
    (hrest : ∀ p ∈ rest, p ∈ all) (hnodup : ((done ++ rolled ++ rest).map Prod.fst).Nodup) :
    ∃ u' calls', rest.foldl (fun u p => undone d.recorded p.2 u) (u, calls) = (u', calls') ∧
      Tidy defaultDriverName pre done (rolled ++ rest) all calls' ∧
      (.threw ∈ calls' ↔ .threw ∈ calls) := by
  induction rest generalizing u calls rolled with
  | nil => exact ⟨u, calls, rfl, (append_nil rolled).symm ▸ h, Iff.rfl⟩
  | cons p rest ih =>
    obtain ⟨hp, hrest⟩ := forall_mem_cons.mp hrest
    have hsplit : done ++ rolled ++ p :: rest = done ++ (rolled ++ [p]) ++ rest := by simp
    have hnew : p.1 ∉ done.map Prod.fst ∧ p.1 ∉ rolled.map Prod.fst := by
      rw [map_append, nodup_append, map_append] at hnodup
      exact ⟨fun hin => hnodup.2.2 _ (mem_append_left _ hin) _ mem_cons_self rfl,
        fun hin => hnodup.2.2 _ (mem_append_right _ hin) _ mem_cons_self rfl⟩
    obtain ⟨u', hu'⟩ := hrollback p.2.2 u
    have hundone : undone d.recorded p.2 (u, calls) = (u', calls ++ [.rolledBack p.1]) := by
      rw [← h.owner p hp]
      simp only [undone, Drivers.recorded, record, hu']
    rw [foldl_cons, hundone, append_cons rolled p rest]
    obtain ⟨u'', calls', hfold, htidy, hthrew⟩ :=
      ih (h.rollback hp hnew.1 hnew.2) hrest (hsplit ▸ hnodup)
    exact ⟨u'', calls', hfold, htidy, hthrew.trans (by simp)⟩

end Tidy

variable [DecidableEq ν]

/-- **The record of a batch** while it runs. -/
theorem keeps_recorded : Keeps d.recorded defaultDriverName tabModif
    (fun pre all s => Tidy defaultDriverName pre [] [] all s.2 ∧ .threw ∉ s.2)
    (fun done all s => Tidy defaultDriverName tabModif done [] all s.2 ∧ .threw ∉ s.2)
    (fun done all s => ∃ pre, pre <+: tabModif ∧ Tidy defaultDriverName pre done [] all s.2 ∧
      Cause d defaultDriverName tabModif s.2) := by
  have hprefix {pre m l} (hpre : pre ++ m :: l = tabModif) : pre <+: tabModif := ⟨_, hpre⟩
  have hmem {pre m l} (hpre : pre ++ m :: l = tabModif) : m ∈ tabModif :=
    hpre ▸ mem_append_right _ mem_cons_self
  have hkept {calls : List (Call ν α β)} {c} (h : .threw ∉ calls) (hc : c ≠ .threw) :
      .threw ∉ calls ++ [c] := fun hin => by
    rcases mem_append.mp hin with hin | hin
    · exact h hin
    · exact hc (mem_singleton.mp hin).symm
  have hthrew {calls : List (Call ν α β)} : Cause d defaultDriverName tabModif (calls ++ [.threw]) :=
    .inl (mem_append_right _ (mem_singleton_self _))
  constructor
  case missing =>
    rintro pre m l hpre all s ⟨htidy, -⟩ hservice
    exact ⟨pre, hprefix hpre, htidy, .inr ⟨m, hmem hpre, .inr ⟨s.1, hservice⟩⟩⟩
  case begins =>
    rintro pre m l hpre all ⟨u, calls⟩ ⟨htidy, hno⟩ -
    simp only [Drivers.recorded, ends_bind, ends_record, ends_pure]
    exact ends_of_forall (fun t _ => ⟨htidy.begins t, hkept hno (by rintro ⟨⟩)⟩)
      fun _ _ => ⟨pre, hprefix hpre, htidy.threw, hthrew⟩
  case operation =>
    rintro pre m l hpre all t ⟨u, calls⟩ hin ⟨htidy, hno⟩
    rcases operation_recorded (d := d) (m := m) (htidy.owner _ hin) with
      ⟨c, f, hc, heq⟩ | ⟨hnone, heq⟩
    · rw [heq, ends_record]
      have hname := mem_map_of_mem (f := Prod.fst) hin
      exact ends_of_forall
        (fun _ _ => ⟨htidy.operation rfl rfl hc hname, hkept hno (asked_eq_some hc).2.2.2.2.2⟩)
        fun _ _ => ⟨pre, hprefix hpre, htidy.threw, hthrew⟩
    · rw [heq, ends_throw]
      exact ⟨pre, hprefix hpre, htidy, .inr ⟨m, hmem hpre, .inl hnone⟩⟩
  case applied => exact fun _ _ h => h
  case commit =>
    rintro p done all ⟨u, calls⟩ hp hdone ⟨htidy, hno⟩
    have howner := htidy.owner p hp
    simp only [Drivers.recorded, ends_record, howner]
    exact ends_of_forall (fun _ _ => ⟨htidy.commit hp hdone rfl, hkept hno (by rintro ⟨⟩)⟩)
      fun _ _ => ⟨tabModif, prefix_rfl, htidy.threw, hthrew⟩

theorem allOrNothing_batchModify {order : List (ν × (ν × τ)) → List (ν × (ν × τ))}
    (hrollback : ∀ t u, ∃ u', d.rollbackTransaction t u = .ok () u')
    (horder : ∀ l, (order l).Perm l) (tabModif : List (Modification ν α β)) (u : σ) :
    AllOrNothing d defaultDriverName tabModif
      (batchModify d.recorded defaultDriverName order tabModif (u, [])).1
      (batchModify d.recorded defaultDriverName order tabModif (u, [])).2.drivers.2 := by
  have hK : Keeps d.recorded defaultDriverName tabModif _ _ _ := keeps_recorded
  obtain ⟨s, done, rest, hr, hentries, hcase⟩ :=
    batchModify_eq (u := (u, [])) hK horder ⟨Tidy.nil, not_mem_nil⟩
  generalize batchModify d.recorded defaultDriverName order tabModif (u, []) = r at hr hcase ⊢
  have hperm := hentries ▸ horder s.allTransactions
  have hmem : ∀ p ∈ rest, p ∈ s.allTransactions := fun p hp =>
    hperm.mem_iff.mp (mem_append_right _ hp)
  have hdone : s.nbExecutedTransactions = done.length := by
    rcases hcase with ⟨-, -, hs⟩ | ⟨-, -, hs⟩ <;> exact hs.executed
  have hnodup : (s.allTransactions.map Prod.fst).Nodup := by
    rcases hcase with ⟨-, -, hs⟩ | ⟨-, -, hs⟩ <;> exact hs.nodup
  -- what the loops leave, and the reason for it
  obtain ⟨pre, hprefix, htidy, hreason⟩ : ∃ pre, pre <+: tabModif ∧
      Tidy defaultDriverName pre done [] s.allTransactions s.drivers.2 ∧
      (r.1 = none ∧ pre = tabModif ∧ rest = [] ∧ .threw ∉ s.drivers.2 ∨
        r.1 ≠ none ∧ Cause d defaultDriverName tabModif s.drivers.2) := by
    rcases hcase with ⟨hnone, hrest, hs⟩ | ⟨hne, -, hs⟩
    · exact ⟨tabModif, prefix_rfl, hs.keeps.1, .inl ⟨hnone, rfl, hrest, hs.keeps.2⟩⟩
    · obtain ⟨pre, hprefix, htidy, hcause⟩ := hs.keeps
      exact ⟨pre, hprefix, htidy, .inr ⟨hne, hcause⟩⟩
  obtain ⟨u', calls, hfold, hfinal, hthrew⟩ := htidy.cleanup (u := s.drivers.1) hrollback hmem
    (by rw [append_nil]; exact (hperm.map Prod.fst).nodup_iff.mpr hnodup)
  rw [hr, cleanup_drivers horder hentries hdone, hfold]
  constructor
  case throws =>
    intro hin
    rcases hreason with ⟨-, -, -, hno⟩ | ⟨hne, -⟩
    · exact absurd (hthrew.mp hin) hno
    · exact hne
  case cause =>
    intro hne
    rcases hreason with ⟨hnone, -⟩ | ⟨-, hcause⟩
    · exact absurd hnone hne
    · exact hcause.imp_left hthrew.mpr
  case once => exact hfinal.begun ▸ hnodup
  case orderly => exact hfinal.orderly
  case ended =>
    rw [hfinal.begun, hfinal.committed, hfinal.rolledBack, nil_append, ← map_append]
    exact hperm.map Prod.fst
  case applied =>
    rw [hfinal.applied]
    exact hprefix.map _
  case returned =>
    intro hnone
    rcases hreason with ⟨-, hall, hrest, -⟩ | ⟨hne, -⟩
    · rw [hfinal.applied, hfinal.rolledBack, hall, hrest]
      exact ⟨rfl, rfl⟩
    · exact absurd hnone hne

end Recorded

section Atomic

variable {storage : σ → δ} {isOpen : τ → δ → σ → Prop}

theorem Atomic.recorded (h : Atomic d storage isOpen) :
    Atomic d.recorded (fun s => storage s.1) fun t c s => isOpen t.2 c s.1 where
  begins n := by
    rintro ⟨u, calls⟩
    simp only [Drivers.recorded, ends_bind, ends_record, ends_pure]
    exact h.begins n u
  operation := by
    rintro m t c ⟨u, calls⟩ hopen
    have hoperation := h.operation m t.2 c u hopen
    unfold Batch.operation at hoperation ⊢
    split_ifs at hoperation ⊢ with h₁ h₂ h₃
    all_goals first | exact ends_record.mpr hoperation | exact hopen
  commit := by
    rintro t c ⟨u, calls⟩ hopen
    exact ends_record.mpr (h.commit t.2 c u hopen)
  rollback := by
    rintro t c ⟨u, calls⟩ hopen
    have hrollback := h.rollback t.2 c u hopen
    unfold undone at hrollback ⊢
    simp only [Drivers.recorded, record]
    cases hcall : d.rollbackTransaction t.2 u <;> rw [hcall] at hrollback <;> exact hrollback

variable [DecidableEq ν]

/-- With one driver, the storage that it began with is kept up to the commit. -/
theorem keeps_atomic (h : Atomic d storage isOpen) (c : δ)
    (hname : ∀ m ∈ tabModif, findDriverName defaultDriverName m.configuration = n) :
    Keeps d defaultDriverName tabModif
      (fun _ all u => all = [] ∧ storage u = c ∨ ∃ t, all = [(n, t)] ∧ isOpen t c u)
      (fun done all u => (all = [] ∨ ∃ t, all = [(n, t)]) ∧
        (done = [] → all = [] ∧ storage u = c ∨ ∃ t, all = [(n, t)] ∧ isOpen t c u))
      (fun done all u => (all = [] ∨ ∃ t, all = [(n, t)]) ∧
        (done = [] → all = [] ∧ storage u = c ∨ ∃ t, all = [(n, t)] ∧ isOpen t c u)) := by
  have hone {all : List (ν × τ)} {u : σ} (hI : all = [] ∧ storage u = c ∨
      ∃ t, all = [(n, t)] ∧ isOpen t c u) : all = [] ∨ ∃ t, all = [(n, t)] :=
    hI.imp And.left fun ⟨t, ht, _⟩ => ⟨t, ht⟩
  have hmem {pre l} {m : Modification ν α β} (hpre : pre ++ m :: l = tabModif) :
      findDriverName defaultDriverName m.configuration = n :=
    hname m (hpre ▸ mem_append_right _ mem_cons_self)
  constructor
  case missing => exact fun _ _ _ _ _ _ hI _ => ⟨hone hI, fun _ => hI⟩
  case begins =>
    rintro pre m l hpre all u hI hlookup
    rw [hmem hpre] at hlookup ⊢
    rcases hI with ⟨rfl, rfl⟩ | ⟨t, rfl, -⟩
    · exact (h.begins n u).mono (fun t _ hopen => .inr ⟨t, rfl, hopen⟩)
        fun _ _ hc => ⟨.inl rfl, fun _ => .inl ⟨rfl, hc⟩⟩
    · rw [lookup_cons_self] at hlookup
      cases hlookup
  case operation =>
    rintro pre m l hpre all t u hin hI
    rcases hI with ⟨rfl, -⟩ | ⟨t', rfl, hopen⟩
    · exact absurd hin not_mem_nil
    · obtain rfl : t = t' := (Prod.mk.inj (mem_singleton.mp hin)).2
      exact (h.operation m t c u hopen).mono (fun _ _ hu => .inr ⟨t, rfl, hu⟩)
        fun _ _ hu => ⟨.inr ⟨t, rfl⟩, fun _ => .inr ⟨t, rfl, hu⟩⟩
  case applied => exact fun _ _ hI => ⟨hone hI, fun _ => hI⟩
  case commit =>
    rintro p done all u hp - ⟨hall, hI⟩
    unfold Ends
    cases hcommit : d.commitTransaction p.2 u with
    | ok _ u' => exact ⟨hall, fun hnil => absurd hnil (by simp)⟩
    | error e u' =>
      refine ⟨hall, fun hnil => ?_⟩
      rcases hI hnil with ⟨rfl, -⟩ | ⟨t, rfl, hopen⟩
      · exact absurd hp not_mem_nil
      · obtain rfl := mem_singleton.mp hp
        have hkept := h.commit t c u hopen
        unfold Ends at hkept
        rw [hcommit] at hkept
        exact .inr ⟨t, rfl, hkept⟩

theorem storage_batchModify (h : Atomic d storage isOpen) (horder : ∀ l, (order l).Perm l)
    (hname : ∀ m ∈ tabModif, findDriverName defaultDriverName m.configuration = n)
    (hthrown : (batchModify d defaultDriverName order tabModif u).1 ≠ none) :
    storage (batchModify d defaultDriverName order tabModif u).2.drivers = storage u := by
  obtain ⟨s, done, rest, hr, hentries, hcase⟩ :=
    batchModify_eq (keeps_atomic h (storage u) hname) horder (.inl ⟨rfl, rfl⟩)
  obtain ⟨-, hrest, hs⟩ := hcase.resolve_left fun h => hthrown h.1
  rw [hr, cleanup_drivers horder hentries hs.executed]
  have hperm := hentries ▸ horder s.allTransactions
  have hdone : done = [] := by
    rcases hrest with hnil | hrest
    · exact hnil
    · have hlen := hperm.length_eq
      have hpos := length_pos_iff.mpr hrest
      rw [length_append] at hlen
      rcases hs.keeps.1 with hall | ⟨t, hall⟩ <;> rw [hall] at hlen <;>
        simp only [length_nil, length_singleton] at hlen <;>
        exact length_eq_zero_iff.mp (by omega)
  rw [hdone, nil_append] at hperm
  rcases hs.keeps.2 hdone with ⟨hall, hc⟩ | ⟨t, hall, hopen⟩
  · rw [hall, perm_nil] at hperm
    rw [hperm]
    exact hc
  · rw [hall, perm_singleton] at hperm
    rw [hperm]
    exact h.rollback t _ _ hopen

end Atomic

section Batches

variable [DecidableEq ν]

/-- **A batch is all or nothing.** -/
theorem batchModify_spec {order : List (ν × (ν × τ)) → List (ν × (ν × τ))}
    (hrollback : ∀ t u, ∃ u', d.rollbackTransaction t u = .ok () u')
    (horder : ∀ l, (order l).Perm l) (tabModif : List (Modification ν α β)) (u : σ) :
    AllOrNothing d defaultDriverName tabModif
        (batchModify d.recorded defaultDriverName order tabModif (u, [])).1
        (batchModify d.recorded defaultDriverName order tabModif (u, [])).2.drivers.2 ∧
      ∀ (δ : Type) (storage : σ → δ) (isOpen : τ → δ → σ → Prop) (n : ν),
        Atomic d storage isOpen →
        (∀ m ∈ tabModif, findDriverName defaultDriverName m.configuration = n) →
        (batchModify d.recorded defaultDriverName order tabModif (u, [])).1 ≠ none →
        storage (batchModify d.recorded defaultDriverName order tabModif (u, [])).2.drivers.1 =
          storage u :=
  ⟨allOrNothing_batchModify hrollback horder tabModif u,
    fun _ _ _ _ hatomic hname hthrown => storage_batchModify hatomic.recorded horder hname hthrown⟩

/-- Drivers of one document each; a transaction is its driver with the document it began with, and
the commits of "mem" fail. -/
def documents : Drivers (String → String) String (String × String) Unit Unit where
  getService _ _ := true
  beginTransaction n := fun s => .ok (n, s n) s
  create t path _ _ _ := modify fun s => Function.update s t.1 path
  update t path _ _ _ := modify fun s => Function.update s t.1 path
  delete t _ _ := modify fun s => Function.update s t.1 ""
  commitTransaction t := if t.1 = "mem" then throw .storage else pure ()
  rollbackTransaction t := modify fun s => Function.update s t.1 t.2

/-- Three modifications in two drivers: the commit of the second one fails. -/
def threeModifications : List (Modification String Unit Unit) :=
  [⟨typeCreate, "/a", (), (), none⟩, ⟨typeUpdate, "/b", (), (), some (some "mem")⟩,
    ⟨typeDelete, "/a", (), (), none⟩]

theorem batchModify_spec_failing :
    AllOrNothing documents "sqlite" threeModifications (some .storage)
      [.began "sqlite", .create "sqlite" "/a" () () none, .began "mem",
        .update "mem" "/b" () () (some (some "mem")), .delete "sqlite" "/a" none,
        .committed "sqlite", .threw, .rolledBack "mem"] :=
  (batchModify_spec (d := documents) (fun _ _ => ⟨_, rfl⟩) (fun l => .refl l) threeModifications
    fun _ => "").1

end Batches

end Ong.StorageDriver.Batch
