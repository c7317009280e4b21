import Ong.Knx.Supervisor

/-!
# The devices of a topology

A new topology marks every device, then finds or creates the devices that it names and clears their
marks: the devices without mark are those that it names, provided that the table has room.

## Main results

* `initializeTopology_extended`: the devices after a topology was read
-/

namespace Ong.Knx

open List

/-! ## The devices by their addresses -/

inductive DeviceType
  | groupAddrDevice | realDevice
  deriving DecidableEq

def XoObject.keys (o : XoObject) : List (DeviceType × UInt32) :=
  if o.covDptEnable = true then o.groupAddr.map fun addr => (.groupAddrDevice, addr) else []

def XoDevice.keys (d : XoDevice) : List (DeviceType × UInt32) :=
  match d.knxId with
  | none => []
  | some knxId => (.realDevice, knxId) :: d.object.flatMap XoObject.keys

/-- The physical devices of a topology that have an address, and the group addresses of their
objects that are reported. -/
def Topology.keys (t : Topology) : List (DeviceType × UInt32) := t.flatMap XoDevice.keys

/-- The devices of two lists, physical and for group addresses. -/
def keysOf (deviceApp groupApp : List Sensor) : List (DeviceType × UInt32) :=
  deviceApp.map (fun cp => (.realDevice, cp.knxId)) ++
    groupApp.map fun cp => (.groupAddrDevice, cp.knxId)

def Network.keys (n : Network) : List (DeviceType × UInt32) := keysOf n.deviceApp n.groupApp

/-- The devices that are not marked for deletion. -/
def Network.unmarked (n : Network) : List (DeviceType × UInt32) :=
  keysOf (n.deviceApp.filter fun cp => !cp.toDelete) (n.groupApp.filter fun cp => !cp.toDelete)

/-- The table has room for what is not there yet. -/
def Room (tb : SensorTable) (n : Network) (keys : List (DeviceType × UInt32)) : Prop :=
  tb.nbSensor + (keys.toFinset \ n.keys.toFinset).card ≤ MAX_KNX_DEVICE

instance (tb : SensorTable) (n : Network) (keys : List (DeviceType × UInt32)) :
    Decidable (Room tb n keys) := inferInstanceAs (Decidable (_ ≤ _))

section Keys

variable {deviceApp groupApp cps : List Sensor} {knxId : UInt32}

theorem mem_keysOf_realDevice :
    (.realDevice, knxId) ∈ keysOf deviceApp groupApp ↔ knxId ∈ deviceApp.map (·.knxId) := by
  simp [keysOf]

theorem mem_keysOf_groupAddrDevice :
    (.groupAddrDevice, knxId) ∈ keysOf deviceApp groupApp ↔ knxId ∈ groupApp.map (·.knxId) := by
  simp [keysOf]

theorem nodup_keysOf : (keysOf deviceApp groupApp).Nodup ↔
    (deviceApp.map (·.knxId)).Nodup ∧ (groupApp.map (·.knxId)).Nodup := by
  have hdevice : deviceApp.map (fun cp => (DeviceType.realDevice, cp.knxId)) =
      (deviceApp.map (·.knxId)).map fun knxId => (.realDevice, knxId) := by simp
  have hgroup : groupApp.map (fun cp => (DeviceType.groupAddrDevice, cp.knxId)) =
      (groupApp.map (·.knxId)).map fun knxId => (.groupAddrDevice, knxId) := by simp
  rw [keysOf, nodup_append, hdevice, hgroup,
    nodup_map_iff (Prod.mk_right_injective _), nodup_map_iff (Prod.mk_right_injective _)]
  refine ⟨fun h => ⟨h.1, h.2.1⟩, fun h => ⟨h.1, h.2, ?_⟩⟩
  intro a ha b hb heq
  obtain ⟨x, -, rfl⟩ := mem_map.mp ha
  obtain ⟨y, -, rfl⟩ := mem_map.mp hb
  cases heq

/-! ## One device -/

theorem map_knxId_refreshFirst : (refreshFirst knxId cps).map (·.knxId) = cps.map (·.knxId) := by
  induction cps with
  | nil => rfl
  | cons cp cps ih =>
    rw [refreshFirst]
    split
    · next h => simp [Sensor.refresh, h]
    · simp [ih]

theorem mem_unmarked_refreshFirst (hnodup : (cps.map (·.knxId)).Nodup)
    (hmem : knxId ∈ cps.map (·.knxId)) (x : UInt32) :
    x ∈ ((refreshFirst knxId cps).filter fun cp => !cp.toDelete).map (·.knxId) ↔
      x = knxId ∨ x ∈ (cps.filter fun cp => !cp.toDelete).map (·.knxId) := by
  induction cps with
  | nil => cases hmem
  | cons cp cps ih =>
    rw [map_cons, nodup_cons] at hnodup
    rw [refreshFirst]
    split
    · next h =>
      subst h
      cases hmark : cp.toDelete <;> simp [Sensor.refresh, hmark]
    · next h =>
      have hmem : knxId ∈ cps.map (·.knxId) := by simpa [Ne.symm h] using hmem
      have ih := ih hnodup.2 hmem
      cases hmark : cp.toDelete with
      | true =>
        rw [filter_cons_of_neg (by simp [hmark]), filter_cons_of_neg (by simp [hmark])]
        exact ih
      | false =>
        rw [filter_cons_of_pos (by simp [hmark]), filter_cons_of_pos (by simp [hmark]),
          map_cons, map_cons, mem_cons, mem_cons, ih]
        tauto

theorem holdSensor_spec (tb : SensorTable) (knxId : UInt32) (hnodup : (cps.map (·.knxId)).Nodup)
    (hroom : knxId ∉ cps.map (·.knxId) → tb.nbSensor < MAX_KNX_DEVICE) :
    ∃ tb' cps', holdSensor tb cps knxId = some (tb', cps') ∧
      (cps'.map (·.knxId)).Nodup ∧
      (∀ x, x ∈ cps'.map (·.knxId) ↔ x = knxId ∨ x ∈ cps.map (·.knxId)) ∧
      (∀ x, x ∈ (cps'.filter fun cp => !cp.toDelete).map (·.knxId) ↔
        x = knxId ∨ x ∈ (cps.filter fun cp => !cp.toDelete).map (·.knxId)) ∧
      tb'.nbSensor = tb.nbSensor + if knxId ∈ cps.map (·.knxId) then 0 else 1 := by
  by_cases hmem : knxId ∈ cps.map (·.knxId)
  · have hfound : ∃ cp ∈ cps, cp.knxId = knxId := by simpa using hmem
    refine ⟨tb, refreshFirst knxId cps, if_pos hfound, ?_, fun x => ?_,
      mem_unmarked_refreshFirst hnodup hmem, by simp [hmem]⟩
    · rwa [map_knxId_refreshFirst]
    · rw [map_knxId_refreshFirst]
      exact ⟨.inr, fun h => h.elim (fun heq => heq ▸ hmem) id⟩
  · have hfound : ¬ ∃ cp ∈ cps, cp.knxId = knxId := by simpa using hmem
    have hcreate : sensorCreateDevice tb =
        some ({ serial := tb.nextSerial }, ⟨tb.nbSensor + 1, tb.nextSerial + 1⟩) :=
      if_pos ((hroom hmem).trans (by decide))
    refine ⟨_, _, (if_neg hfound).trans (by rw [hcreate]; rfl), ?_, ?_, ?_, ?_⟩
    · exact nodup_cons.mpr ⟨hmem, hnodup⟩
    · simp [Sensor.refresh]
    · simp [Sensor.refresh]
    · simp [hmem]

end Keys

/-! ## A topology -/

/-- The network after some devices were named, and the table. -/
structure Extended (keys : List (DeviceType × UInt32)) (p q : SensorTable × Network) : Prop where
  rest : q.2 = { p.2 with deviceApp := q.2.deviceApp, groupApp := q.2.groupApp }
  nodup : q.2.keys.Nodup
  mem_keys : ∀ k, k ∈ q.2.keys ↔ k ∈ keys ∨ k ∈ p.2.keys
  mem_unmarked : ∀ k, k ∈ q.2.unmarked ↔ k ∈ keys ∨ k ∈ p.2.unmarked
  nbSensor : q.1.nbSensor = p.1.nbSensor + (keys.toFinset \ p.2.keys.toFinset).card

section Extended

variable {keys keys' : List (DeviceType × UInt32)} {p q s : SensorTable × Network}

theorem Extended.refl (hnodup : p.2.keys.Nodup) : Extended [] p p :=
  ⟨rfl, hnodup, by simp, by simp, by simp⟩

theorem Extended.card_add (h : Extended keys p q) :
    ((keys ++ keys').toFinset \ p.2.keys.toFinset).card =
      (keys.toFinset \ p.2.keys.toFinset).card + (keys'.toFinset \ q.2.keys.toFinset).card := by
  rw [← Finset.card_union_of_disjoint]
  · congr 1
    ext k
    have := h.mem_keys k
    simp only [Finset.mem_sdiff, mem_toFinset, mem_append, Finset.mem_union]
    tauto
  · rw [Finset.disjoint_left]
    intro k hk hk'
    simp only [Finset.mem_sdiff, mem_toFinset] at hk hk'
    exact hk'.2 ((h.mem_keys k).mpr (.inl hk.1))

theorem Extended.trans (h : Extended keys p q) (h' : Extended keys' q s) :
    Extended (keys ++ keys') p s := by
  refine ⟨?_, h'.nodup, fun k => ?_, fun k => ?_, ?_⟩
  · rw [h'.rest, h.rest]
  · rw [h'.mem_keys, h.mem_keys, mem_append]
    tauto
  · rw [h'.mem_unmarked, h.mem_unmarked, mem_append]
    tauto
  · rw [h'.nbSensor, h.nbSensor, h.card_add]
    omega

theorem Extended.room (h : Extended keys p q) (hroom : Room p.1 p.2 (keys ++ keys')) :
    Room q.1 q.2 keys' := by
  unfold Room at *
  rw [h.card_add] at hroom
  rw [h.nbSensor]
  omega

theorem Room.left (h : Room p.1 p.2 (keys ++ keys')) : Room p.1 p.2 keys := by
  refine le_trans (Nat.add_le_add_left (Finset.card_le_card ?_) _) h
  intro k hk
  simp only [Finset.mem_sdiff, mem_toFinset, mem_append] at hk ⊢
  exact ⟨.inl hk.1, hk.2⟩

theorem Room.lt {k : DeviceType × UInt32} (h : Room p.1 p.2 [k]) (hk : k ∉ p.2.keys) :
    p.1.nbSensor < MAX_KNX_DEVICE := by
  unfold Room at h
  have hcard : ([k].toFinset \ p.2.keys.toFinset).card = 1 := by
    rw [Finset.card_eq_one]
    refine ⟨k, ?_⟩
    ext x
    simp only [Finset.mem_sdiff, mem_toFinset, mem_singleton, Finset.mem_singleton]
    exact ⟨And.left, fun h => ⟨h, h ▸ hk⟩⟩
  omega

theorem card_singleton_sdiff (k : DeviceType × UInt32) (keys : List (DeviceType × UInt32)) :
    ([k].toFinset \ keys.toFinset).card = if k ∈ keys then 0 else 1 := by
  by_cases hk : k ∈ keys
  · rw [if_pos hk, Finset.card_eq_zero, Finset.sdiff_eq_empty_iff_subset]
    simpa using hk
  · rw [if_neg hk, Finset.sdiff_eq_self_of_disjoint (by simpa using hk)]
    rfl

theorem extended_foldl {α : Type} {f : SensorTable × Network → α → SensorTable × Network}
    {keysOf : α → List (DeviceType × UInt32)}
    (hf : ∀ p a, p.2.keys.Nodup → Room p.1 p.2 (keysOf a) → Extended (keysOf a) p (f p a))
    {l : List α} (hnodup : p.2.keys.Nodup) (hroom : Room p.1 p.2 (l.flatMap keysOf)) :
    Extended (l.flatMap keysOf) p (l.foldl f p) := by
  induction l generalizing p with
  | nil => exact .refl hnodup
  | cons a l ih =>
    rw [flatMap_cons] at hroom ⊢
    have hstep := hf p a hnodup hroom.left
    exact hstep.trans (ih hstep.nodup (hstep.room hroom))

theorem initializeGroupAddr_extended (hnodup : p.2.keys.Nodup) (addr : UInt32)
    (hroom : Room p.1 p.2 [(.groupAddrDevice, addr)]) :
    Extended [(.groupAddrDevice, addr)] p (initializeGroupAddr p addr) := by
  obtain ⟨hdevice, hgroup⟩ := nodup_keysOf.mp hnodup
  obtain ⟨tb, cps, heq, hnodup', hmem, hunmarked, hnb⟩ := holdSensor_spec p.1 addr hgroup
    fun hnew => hroom.lt (mt mem_keysOf_groupAddrDevice.mp hnew)
  rw [initializeGroupAddr, heq]
  refine ⟨rfl, nodup_keysOf.mpr ⟨hdevice, hnodup'⟩, ?_, ?_, ?_⟩
  · rintro ⟨_ | _, x⟩
    · simpa [Network.keys, mem_keysOf_groupAddrDevice] using hmem x
    · simp [Network.keys, mem_keysOf_realDevice]
  · rintro ⟨_ | _, x⟩
    · simpa [Network.unmarked, mem_keysOf_groupAddrDevice] using hunmarked x
    · simp [Network.unmarked, mem_keysOf_realDevice]
  · rw [card_singleton_sdiff]
    simpa only [Network.keys, mem_keysOf_groupAddrDevice] using hnb

theorem initializeObject_extended (o : XoObject) (hnodup : p.2.keys.Nodup)
    (hroom : Room p.1 p.2 o.keys) : Extended o.keys p (initializeObject p o) := by
  unfold initializeObject XoObject.keys at *
  cases hcov : o.covDptEnable with
  | false => simpa using Extended.refl hnodup
  | true =>
    rw [hcov, if_pos rfl] at hroom
    have hflat : o.groupAddr.map (fun addr => (DeviceType.groupAddrDevice, addr)) =
        o.groupAddr.flatMap fun addr => [(.groupAddrDevice, addr)] := map_eq_flatMap
    rw [hflat] at hroom ⊢
    exact extended_foldl (fun p addr h hroom => initializeGroupAddr_extended h addr hroom) hnodup
      hroom

theorem initializeDevice_extended (d : XoDevice) (hnodup : p.2.keys.Nodup)
    (hroom : Room p.1 p.2 d.keys) : Extended d.keys p (initializeDevice p d) := by
  unfold initializeDevice XoDevice.keys at *
  cases hid : d.knxId with
  | none => exact .refl hnodup
  | some knxId =>
    rw [hid] at hroom
    dsimp only at hroom ⊢
    rw [← singleton_append] at hroom ⊢
    obtain ⟨hdevice, hgroup⟩ := nodup_keysOf.mp hnodup
    obtain ⟨tb, cps, heq, hnodup', hmem, hunmarked, hnb⟩ := holdSensor_spec p.1 knxId hdevice
      fun hnew => hroom.left.lt (mt mem_keysOf_realDevice.mp hnew)
    rw [heq]
    have hstep : Extended [(.realDevice, knxId)] p (tb, { p.2 with deviceApp := cps }) := by
      refine ⟨rfl, nodup_keysOf.mpr ⟨hnodup', hgroup⟩, ?_, ?_, ?_⟩
      · rintro ⟨_ | _, x⟩
        · simp [Network.keys, mem_keysOf_groupAddrDevice]
        · simpa [Network.keys, mem_keysOf_realDevice] using hmem x
      · rintro ⟨_ | _, x⟩
        · simp [Network.unmarked, mem_keysOf_groupAddrDevice]
        · simpa [Network.unmarked, mem_keysOf_realDevice] using hunmarked x
      · rw [card_singleton_sdiff]
        simpa only [Network.keys, mem_keysOf_realDevice] using hnb
    exact hstep.trans (extended_foldl (fun p o h hroom => initializeObject_extended o h hroom)
      hstep.nodup (hstep.room hroom))

/-- **The devices after a topology was read**. -/
theorem initializeTopology_extended (t : Topology) (hnodup : p.2.keys.Nodup)
    (hroom : Room p.1 p.2 t.keys) : Extended t.keys p (t.foldl initializeDevice p) :=
  extended_foldl (fun _ d h hroom => initializeDevice_extended d h hroom) hnodup hroom

end Extended

end Ong.Knx
