import Mathlib.Data.Fintype.List
import Ong.Lib.Run
import Ong.Azap.ZnpStartSm

/-!
# What a start-up has done when it succeeds

The milestones of a start-up come in one order, up to the device information items, that the state
machine counts without looking which ones they are.

## Main results

* `startUp_iff`: a success is reported after a complete start-up exactly when the PAN identifier is
  written with success and no device information item came twice
-/

namespace Ong.Azap

open Run ZnpStartInstance List

/-- All that a success stands for, in the two cycles. -/
structure StartUpComplete (cfg : StartConfig) (ms : List Milestone) : Prop where
  epRegistered : ∀ cycle ∈ [0, 1], ms.count (.epRegistered cycle) = cfg.endPointList.length
  zdoCbRegistered : ∀ cycle ∈ [0, 1],
    ms.count (.zdoCbRegistered cycle) = nbZdoMsgCbRegister.toNat
  started : ∀ cycle ∈ [0, 1], .started cycle ∈ ms
  optionReadBack : .optionReadBack ∈ ms
  coordinator : .coordinator ∈ ms
  deviceInfo : ∀ item ∈ deviceInfoItems, .deviceInfo item ∈ ms
  panIdWritten : .panIdWritten statusCodeSuccess ∈ ms

/-! ## The order of the milestones -/

/-- A whole cycle, with `n` end points. -/
def cycleMilestones (n : Nat) (cycle : UInt8) : List Milestone :=
  List.replicate n (.epRegistered cycle) ++ List.replicate 13 (.zdoCbRegistered cycle) ++
    [.started cycle]

/-- What comes before the registrations of a cycle. -/
def beforeCycle (n : Nat) (cycle : UInt8) : List Milestone :=
  if cycle = 0 then [] else cycleMilestones n 0 ++ [.optionReadBack]

/-- What comes before the device information. -/
def beforeInfos (n : Nat) : List Milestone :=
  beforeCycle n 1 ++ cycleMilestones n 1 ++ [.coordinator]

/-- The milestones that a state comes after. -/
def Progress (cfg : StartConfig) (s : ZnpStartInstance) (ms : List Milestone) : Prop :=
  let n := cfg.endPointList.length
  match s.state with
  | .null => False
  | .waitInitialResetResp => s.nbCycles = 0 ∧ ms = []
  -- the start-up option is written at the beginning and again after the first cycle
  | .waitWriteParamResp =>
    (s.nbCycles = 0 ∧ ms = []) ∨ (s.nbCycles = 1 ∧ ms = cycleMilestones n 0)
  | .waitWriteResetResp => s.nbCycles = 0 ∧ ms = []
  | .waitReadParamResp => s.nbCycles = 1 ∧ ms = cycleMilestones n 0
  | .waitRegisterEndpointsResp =>
    -- `k` end points have answered; the counter of the source is a byte
    (s.nbCycles = 0 ∨ s.nbCycles = 1) ∧ ∃ k, k < n ∧
      s.afRegisterEpRespExpected.toNat = (n - k) % 256 ∧
        ms = beforeCycle n s.nbCycles ++ List.replicate k (.epRegistered s.nbCycles)
  | .waitRegisterZdoCallbacksResp =>
    (s.nbCycles = 0 ∨ s.nbCycles = 1) ∧ ∃ k, k < 13 ∧ s.zdoCbRegisterRespExpected.toNat = 13 - k ∧
      ms = beforeCycle n s.nbCycles ++ (List.replicate n (.epRegistered s.nbCycles) ++
        List.replicate k (.zdoCbRegistered s.nbCycles))
  | .waitStartupFromAppResp =>
    (s.nbCycles = 0 ∨ s.nbCycles = 1) ∧ ms = beforeCycle n s.nbCycles ++
      (List.replicate n (.epRegistered s.nbCycles) ++
        List.replicate 13 (.zdoCbRegistered s.nbCycles))
  | .starting => s.nbCycles = 1 ∧ ms = beforeCycle n 1 ++ cycleMilestones n 1
  | .waitPanInfos => ∃ items, ms = beforeInfos n ++ items.map .deviceInfo ∧
      items ⊆ deviceInfoItems ∧ items.length < 4 ∧
        s.deviceInfoRespExpected.toNat = 4 - items.length
  | .waitWritePanId => ∃ items, ms = beforeInfos n ++ items.map .deviceInfo ∧
      items ⊆ deviceInfoItems ∧ items.length = 4

/-- An instance is under way, or has failed. -/
def UnderWay (cfg : StartConfig) (s : ZnpStartInstance) (ms : List Milestone) : Prop :=
  (s.completions = [] ∧ Progress cfg s ms) ∨ s.completions = [false]

/-- The milestone that a message passes in the state of an instance. -/
def ZnpStartInstance.passes (cfg : StartConfig) (s : ZnpStartInstance) (cmd : UInt16)
    (data : List UInt8) : List Milestone :=
  ((⟨s.state, s.nbCycles, cmd, data⟩ : ReceivedMsg).milestone cfg).toList

variable {cmd0 cmd1 : UInt8} {e : StartEvent}

section Steps

variable {cfg : StartConfig} {s : ZnpStartInstance} {ms : List Milestone} {cmd : UInt16}
  {data : List UInt8} {room : UInt8 → Bool}

theorem StartConfig.length_le (cfg : StartConfig) : cfg.endPointList.length ≤ 256 := by
  have hnodup : (cfg.endPointList.map UInt8.toNat).Nodup :=
    cfg.nodup.map fun _ _ h => UInt8.toNat_inj.mp h
  have hsub : cfg.endPointList.map UInt8.toNat ⊆ range 256 := by
    intro i hi
    obtain ⟨endp, -, rfl⟩ := mem_map.mp hi
    exact mem_range.mpr endp.toNat_lt
  have hlength := (subperm_of_subset hnodup hsub).length_le
  rwa [length_map, length_range] at hlength

theorem toNat_foldl_succ (l : List UInt8) (n : UInt8) :
    (l.foldl (fun n _ => n + 1) n).toNat = (n.toNat + l.length) % 256 := by
  induction l generalizing n with
  | nil =>
    have hlt := n.toNat_lt
    simp only [foldl_nil, length_nil]
    omega
  | cons a l ih =>
    rw [foldl_cons, ih, UInt8.toNat_add, length_cons]
    have hone : (1 : UInt8).toNat = 1 := rfl
    omega

theorem underWay_toRegisterEndpoints (h : s.completions = [])
    (hcycle : s.nbCycles = 0 ∨ s.nbCycles = 1)
    (hms : ms = beforeCycle cfg.endPointList.length s.nbCycles) :
    UnderWay cfg (s.toRegisterEndpoints cfg room) ms := by
  unfold toRegisterEndpoints registerEndPoints
  dsimp only
  by_cases hroom : (cfg.endPointList ≠ [] && cfg.endPointList.all room) = true
  · rw [if_pos hroom]
    refine .inl ⟨h, hcycle, 0, ?_, ?_, ?_⟩
    · exact length_pos_iff.mpr (of_decide_eq_true (Bool.and_eq_true_iff.mp hroom).1)
    · have hcount := toNat_foldl_succ cfg.endPointList 0
      rw [UInt8.toNat_zero, Nat.zero_add] at hcount
      exact hcount
    · rw [replicate_zero, append_nil]
      exact hms
  · rw [if_neg hroom]
    refine .inr ?_
    unfold abandon doStartZnpCompletion
      setState
    dsimp only
    rw [h, nil_append]

theorem underWay_abandon (h : s.completions = []) : UnderWay cfg s.abandon ms := by
  refine .inr ?_
  unfold abandon doStartZnpCompletion
  dsimp only
  rw [h, nil_append]

/-! ### The messages that the states wait for -/

theorem passes_of {state : ZnpStartState} (h : s.state = state) : s.passes cfg cmd data =
    ((⟨state, s.nbCycles, cmd, data⟩ : ReceivedMsg).milestone cfg).toList := by
  rw [passes, h]

section

variable (h : s.completions = []) (hp : Progress cfg s ms)

include h hp

theorem underWay_waitInitialResetResp (hstate : s.state = .waitInitialResetResp) :
    UnderWay cfg (s.processWaitInitialResetResp cfg cmd)
      (ms ++ s.passes cfg cmd data) := by
  have hnone : s.passes cfg cmd data = [] := passes_of hstate
  rw [hnone, append_nil]
  unfold processWaitInitialResetResp
  by_cases hcmd : cmd = mtSysResetInd
  · rw [if_pos hcmd]
    unfold Progress at hp
    rw [hstate] at hp
    exact .inl ⟨h, .inl hp⟩
  · rw [if_neg hcmd]
    exact .inl ⟨h, hp⟩

theorem underWay_waitWriteParamResp (hstate : s.state = .waitWriteParamResp) :
    UnderWay cfg (s.processWaitWriteParamResp cfg cmd data)
      (ms ++ s.passes cfg cmd data) := by
  have hnone : s.passes cfg cmd data = [] := passes_of hstate
  rw [hnone, append_nil]
  have hcycle : (s.nbCycles = 0 ∧ ms = []) ∨
      (s.nbCycles = 1 ∧ ms = cycleMilestones cfg.endPointList.length 0) := by
    unfold Progress at hp
    rwa [hstate] at hp
  unfold processWaitWriteParamResp
  by_cases hreset : cmd = mtSysResetInd
  · rw [if_pos hreset]
    unfold processWaitInitialResetResp
    rw [if_pos hreset]
    exact .inl ⟨h, hcycle⟩
  rw [if_neg hreset]
  by_cases hwrite : cmd = mtSysNvWriteSrsp
  · rw [if_pos hwrite]
    by_cases hstatus : byteAt data 0 ≠ statusCodeSuccess
    · rw [if_pos hstatus]
      exact underWay_abandon h
    rw [if_neg hstatus]
    dsimp only
    by_cases hlast : s.writeParamRespExpected - 1 = 0
    · rw [if_pos hlast]
      rcases hcycle with ⟨hzero, hms⟩ | ⟨hone, hms⟩
      · rw [if_pos hzero]
        exact .inl ⟨h, hzero, hms⟩
      · rw [if_neg (by rw [hone]; decide)]
        exact .inl ⟨h, hone, hms⟩
    · rw [if_neg hlast]
      refine .inl ⟨h, ?_⟩
      unfold Progress
      dsimp only
      rw [hstate]
      exact hcycle
  · rw [if_neg hwrite]
    exact .inl ⟨h, hp⟩

theorem underWay_waitWriteResetResp (hstate : s.state = .waitWriteResetResp) :
    UnderWay cfg (s.processWaitWriteResetResp cfg cmd room)
      (ms ++ s.passes cfg cmd data) := by
  have hnone : s.passes cfg cmd data = [] := passes_of hstate
  rw [hnone, append_nil]
  unfold processWaitWriteResetResp
  by_cases hcmd : cmd = mtSysResetInd
  · rw [if_pos hcmd]
    unfold Progress at hp
    rw [hstate] at hp
    obtain ⟨hzero, hms⟩ := hp
    refine underWay_toRegisterEndpoints h (.inl hzero) ?_
    rw [hms, hzero]
    rfl
  · rw [if_neg hcmd]
    exact .inl ⟨h, hp⟩

theorem underWay_waitReadParamResp (hstate : s.state = .waitReadParamResp) :
    UnderWay cfg (s.processWaitReadParamResp cfg cmd data room)
      (ms ++ s.passes cfg cmd data) := by
  have hpasses : s.passes cfg cmd data =
      (if cmd = mtSysNvReadSrsp ∧ data.length = 3 ∧ byteAt data 0 = statusCodeSuccess ∧
        byteAt data 2 = cfg.startUpOpt then some .optionReadBack else none).toList :=
    passes_of hstate
  rw [hpasses]
  unfold processWaitReadParamResp
  by_cases hcmd : cmd = mtSysNvReadSrsp
  · rw [if_pos hcmd]
    by_cases hoption : data.length = 3 ∧ byteAt data 0 = statusCodeSuccess ∧
        byteAt data 2 = cfg.startUpOpt
    · rw [if_pos hoption, if_pos ⟨hcmd, hoption⟩]
      unfold Progress at hp
      rw [hstate] at hp
      obtain ⟨hone, hms⟩ := hp
      refine underWay_toRegisterEndpoints h (.inr hone) ?_
      rw [hms, hone]
      rfl
    · rw [if_neg hoption]
      exact underWay_abandon h
  · rw [if_neg hcmd, if_neg (fun hc => hcmd hc.1), Option.toList_none, append_nil]
    exact .inl ⟨h, hp⟩

end

theorem isRegistered_of_not {status : UInt8}
    (h : ¬(status ≠ statusCodeSuccess ∧ status ≠ statusDuplicateEntry)) :
    isRegistered status = true := by
  unfold isRegistered
  rw [Bool.or_eq_true, decide_eq_true_iff, decide_eq_true_iff]
  tauto

theorem toNat_sub_one {count : UInt8} {n k : Nat} (hn : n ≤ 256) (hk : k < n)
    (hcount : count.toNat = (n - k) % 256) :
    (count - 1).toNat = (n - (k + 1)) % 256 ∧ (count - 1 = 0 ↔ k + 1 = n) := by
  have hone : (1 : UInt8).toNat = 1 := rfl
  have hsub : (count - 1).toNat = (n - (k + 1)) % 256 := by
    rw [UInt8.toNat_sub, hone]
    omega
  refine ⟨hsub, ?_⟩
  rw [← UInt8.toNat_inj, hsub, UInt8.toNat_zero]
  omega

section

variable (h : s.completions = []) (hp : Progress cfg s ms)

include h hp

theorem underWay_waitRegisterEndpointsResp (hstate : s.state = .waitRegisterEndpointsResp) :
    UnderWay cfg (s.processWaitRegisterEndpointsResp cmd data)
      (ms ++ s.passes cfg cmd data) := by
  have hpasses : s.passes cfg cmd data =
      (if cmd = mtAfRegisterSrsp ∧ isRegistered (byteAt data 0) then
        some (.epRegistered s.nbCycles) else none).toList :=
    passes_of hstate
  rw [hpasses]
  unfold processWaitRegisterEndpointsResp
  by_cases hcmd : cmd = mtAfRegisterSrsp
  · rw [if_pos hcmd]
    by_cases hstatus : byteAt data 0 ≠ statusCodeSuccess ∧ byteAt data 0 ≠ statusDuplicateEntry
    · rw [if_pos hstatus]
      exact underWay_abandon h
    rw [if_neg hstatus, if_pos (And.intro hcmd (isRegistered_of_not hstatus))]
    unfold Progress at hp
    rw [hstate] at hp
    obtain ⟨hcycle, k, hk, hcount, hms⟩ := hp
    obtain ⟨hsub, hlast⟩ := toNat_sub_one cfg.length_le hk hcount
    have happend : ms ++ [.epRegistered s.nbCycles] =
        beforeCycle cfg.endPointList.length s.nbCycles ++
          replicate (k + 1) (.epRegistered s.nbCycles) := by
      rw [hms, append_assoc, ← replicate_succ']
    rw [Option.toList_some, happend]
    dsimp only
    by_cases hzero : s.afRegisterEpRespExpected - 1 = 0
    · rw [if_pos hzero]
      refine .inl ⟨h, hcycle, 0, by omega, rfl, ?_⟩
      rw [hlast.mp hzero, replicate_zero, append_nil]
      rfl
    · rw [if_neg hzero]
      refine .inl ⟨h, ?_⟩
      unfold Progress
      dsimp only
      rw [hstate]
      have hne : k + 1 ≠ cfg.endPointList.length := fun hk => hzero (hlast.mpr hk)
      exact ⟨hcycle, k + 1, by omega, hsub, rfl⟩
  · rw [if_neg hcmd, if_neg (fun hc => hcmd hc.1), Option.toList_none, append_nil]
    exact .inl ⟨h, hp⟩

theorem underWay_waitRegisterZdoCbResp (hstate : s.state = .waitRegisterZdoCallbacksResp) :
    UnderWay cfg (s.processWaitRegisterZdoCbResp cmd data)
      (ms ++ s.passes cfg cmd data) := by
  have hpasses : s.passes cfg cmd data =
      (if cmd = mtZdoMsgCbRegisterSrsp ∧ isRegistered (byteAt data 0) then
        some (.zdoCbRegistered s.nbCycles) else none).toList :=
    passes_of hstate
  rw [hpasses]
  unfold processWaitRegisterZdoCbResp
  by_cases hcmd : cmd = mtZdoMsgCbRegisterSrsp
  · rw [if_pos hcmd]
    by_cases hstatus : byteAt data 0 ≠ statusCodeSuccess ∧ byteAt data 0 ≠ statusDuplicateEntry
    · rw [if_pos hstatus]
      exact underWay_abandon h
    rw [if_neg hstatus, if_pos (And.intro hcmd (isRegistered_of_not hstatus))]
    unfold Progress at hp
    rw [hstate] at hp
    obtain ⟨hcycle, k, hk, hcount, hms⟩ := hp
    -- the counter is a byte, and goes from thirteen down to zero
    have hmod : s.zdoCbRegisterRespExpected.toNat = (13 - k) % 256 := by omega
    obtain ⟨hsub, hlast⟩ := toNat_sub_one (by omega) hk hmod
    have happend : ms ++ [.zdoCbRegistered s.nbCycles] =
        beforeCycle cfg.endPointList.length s.nbCycles ++
          (replicate cfg.endPointList.length (.epRegistered s.nbCycles) ++
            replicate (k + 1) (.zdoCbRegistered s.nbCycles)) := by
      rw [hms, append_assoc, append_assoc, ← replicate_succ']
    rw [Option.toList_some, happend]
    dsimp only
    by_cases hzero : s.zdoCbRegisterRespExpected - 1 = 0
    · rw [if_pos hzero]
      refine .inl ⟨h, hcycle, ?_⟩
      rw [hlast.mp hzero]
      rfl
    · rw [if_neg hzero]
      refine .inl ⟨h, ?_⟩
      unfold Progress
      dsimp only
      rw [hstate]
      have hne : k + 1 ≠ 13 := fun hk => hzero (hlast.mpr hk)
      exact ⟨hcycle, k + 1, by omega, by omega, rfl⟩
  · rw [if_neg hcmd, if_neg (fun hc => hcmd hc.1), Option.toList_none, append_nil]
    exact .inl ⟨h, hp⟩

theorem underWay_waitStartupFromAppResp (hstate : s.state = .waitStartupFromAppResp) :
    UnderWay cfg (s.processWaitStartupFromAppResp cfg cmd data)
      (ms ++ s.passes cfg cmd data) := by
  have hpasses : s.passes cfg cmd data =
      (if cmd = mtZdoStartupFromAppSrsp ∧ byteAt data 0 ≠ 2 then
        some (.started s.nbCycles) else none).toList :=
    passes_of hstate
  rw [hpasses]
  unfold processWaitStartupFromAppResp
  by_cases hcmd : cmd = mtZdoStartupFromAppSrsp
  · rw [if_pos hcmd]
    by_cases hstarted : byteAt data 0 ≠ 2
    · have hboth : cmd = mtZdoStartupFromAppSrsp ∧ byteAt data 0 ≠ 2 := ⟨hcmd, hstarted⟩
      rw [if_pos hstarted, if_pos hboth, Option.toList_some]
      unfold Progress at hp
      rw [hstate] at hp
      obtain ⟨hcycle, hms⟩ := hp
      have happend : ms ++ [.started s.nbCycles] =
          beforeCycle cfg.endPointList.length s.nbCycles ++
            cycleMilestones cfg.endPointList.length s.nbCycles := by
        rw [hms, append_assoc]
        rfl
      rw [happend]
      rcases hcycle with hzero | hone
      · rw [if_pos hzero]
        refine .inl ⟨h, .inr ⟨?_, ?_⟩⟩
        · show s.nbCycles + 1 = 1
          rw [hzero]
          rfl
        · rw [hzero]
          rfl
      · rw [if_neg (by rw [hone]; decide), hone]
        exact .inl ⟨h, hone, rfl⟩
    · rw [if_neg hstarted]
      exact underWay_abandon h
  · rw [if_neg hcmd, if_neg (fun hc => hcmd hc.1), Option.toList_none, append_nil]
    exact .inl ⟨h, hp⟩

theorem underWay_starting (hstate : s.state = .starting) :
    UnderWay cfg (s.processZnpStartingIndication cmd data)
      (ms ++ s.passes cfg cmd data) := by
  have hpasses : s.passes cfg cmd data =
      (if cmd = mtZdoStateChgIndAreq ∧ byteAt data 0 = zdoDevZbCoord then
        some .coordinator else none).toList :=
    passes_of hstate
  rw [hpasses]
  unfold processZnpStartingIndication
  by_cases hcoord : cmd = mtZdoStateChgIndAreq ∧ byteAt data 0 = zdoDevZbCoord
  · rw [if_pos hcoord, if_pos hcoord]
    unfold Progress at hp
    rw [hstate] at hp
    refine .inl ⟨h, [], ?_, nil_subset _, by decide, rfl⟩
    rw [hp.2, map_nil, append_nil]
    rfl
  · rw [if_neg hcoord, if_neg hcoord, Option.toList_none, append_nil]
    exact .inl ⟨h, hp⟩

end

theorem mem_deviceInfoItems {item : UInt8} : item ∈ deviceInfoItems ↔ item = devInfoShortAddr ∨
    item = devInfoIeeeAddr ∨ item = devInfoPanId ∨ item = devInfoExtPanId := by
  unfold deviceInfoItems
  rw [mem_cons, mem_cons, mem_cons, mem_singleton]

theorem deviceInfo_counted (s : ZnpStartInstance) (hitem : byteAt data 0 ∈ deviceInfoItems) :
    (s.deviceInfo data).deviceInfoRespExpected = s.deviceInfoRespExpected - 1 := by
  unfold ZnpStartInstance.deviceInfo
  rcases mem_deviceInfoItems.mp hitem with hitem | hitem | hitem | hitem <;> rw [hitem] <;> rfl

theorem deviceInfo_ignored (s : ZnpStartInstance) (hitem : byteAt data 0 ∉ deviceInfoItems) :
    s.deviceInfo data = s := by
  rw [mem_deviceInfoItems, not_or, not_or, not_or] at hitem
  obtain ⟨hshort, hieee, hpan, hext⟩ := hitem
  unfold ZnpStartInstance.deviceInfo
  dsimp only
  rw [if_neg hshort, if_neg hieee, if_neg hpan, if_neg hext]

theorem deviceInfo_frame (s : ZnpStartInstance) (data : List UInt8) :
    (s.deviceInfo data).state = s.state ∧ (s.deviceInfo data).nbCycles = s.nbCycles ∧
      (s.deviceInfo data).received = s.received ∧
        (s.deviceInfo data).completions = s.completions := by
  unfold ZnpStartInstance.deviceInfo
  dsimp only
  split_ifs <;> exact ⟨rfl, rfl, rfl, rfl⟩

theorem underWay_waitPanInfos (h : s.completions = []) (hp : Progress cfg s ms)
    (hstate : s.state = .waitPanInfos) :
    UnderWay cfg (s.processWaitPanInfos cmd data)
      (ms ++ s.passes cfg cmd data) := by
  have hpasses : s.passes cfg cmd data =
      (if cmd = mtSapiGetDeviceInfoSrsp ∧ byteAt data 0 ∈ deviceInfoItems then
        some (.deviceInfo (byteAt data 0)) else none).toList :=
    passes_of hstate
  rw [hpasses]
  obtain ⟨items, hms, hsub, hlength, hcount⟩ : ∃ items,
      ms = beforeInfos cfg.endPointList.length ++ items.map .deviceInfo ∧
        items ⊆ deviceInfoItems ∧ items.length < 4 ∧
          s.deviceInfoRespExpected.toNat = 4 - items.length := by
    unfold Progress at hp
    rwa [hstate] at hp
  unfold processWaitPanInfos
  by_cases hcmd : cmd = mtSapiGetDeviceInfoSrsp
  · rw [if_pos hcmd]
    dsimp only
    obtain ⟨hstate', -, -, hcompletions⟩ := deviceInfo_frame s data
    by_cases hitem : byteAt data 0 ∈ deviceInfoItems
    · have hmod : s.deviceInfoRespExpected.toNat = (4 - items.length) % 256 := by omega
      obtain ⟨hsubOne, hlast⟩ := toNat_sub_one (by omega) hlength hmod
      have hboth : cmd = mtSapiGetDeviceInfoSrsp ∧ byteAt data 0 ∈ deviceInfoItems := ⟨hcmd, hitem⟩
      have happend : ms ++ [.deviceInfo (byteAt data 0)] =
          beforeInfos cfg.endPointList.length ++ (items ++ [byteAt data 0]).map .deviceInfo := by
        rw [hms, map_append, append_assoc]
        rfl
      have hsub' : items ++ [byteAt data 0] ⊆ deviceInfoItems :=
        append_subset.mpr ⟨hsub, cons_subset.mpr ⟨hitem, nil_subset _⟩⟩
      have hlength' : (items ++ [byteAt data 0]).length = items.length + 1 := by
        rw [length_append, length_singleton]
      rw [if_pos hboth, Option.toList_some, happend, deviceInfo_counted s hitem]
      by_cases hzero : s.deviceInfoRespExpected - 1 = 0
      · rw [if_pos hzero]
        refine .inl ⟨hcompletions.trans h, items ++ [byteAt data 0], rfl, hsub', ?_⟩
        rw [hlength']
        exact hlast.mp hzero
      · rw [if_neg hzero]
        refine .inl ⟨hcompletions.trans h, ?_⟩
        unfold Progress
        dsimp only
        rw [hstate', hstate]
        have hne : items.length + 1 ≠ 4 := fun hfour => hzero (hlast.mpr hfour)
        refine ⟨items ++ [byteAt data 0], rfl, hsub', by omega, ?_⟩
        rw [deviceInfo_counted s hitem, hsubOne, hlength']
        omega
    · have hcounting : s.deviceInfoRespExpected ≠ 0 := by
        intro hzero
        rw [hzero, UInt8.toNat_zero] at hcount
        omega
      have hneither : ¬(cmd = mtSapiGetDeviceInfoSrsp ∧ byteAt data 0 ∈ deviceInfoItems) :=
        fun hc => hitem hc.2
      rw [deviceInfo_ignored s hitem, if_neg hcounting, if_neg hneither, Option.toList_none,
        append_nil]
      exact .inl ⟨h, hp⟩
  · rw [if_neg hcmd, if_neg (fun hc => hcmd hc.1), Option.toList_none, append_nil]
    exact .inl ⟨h, hp⟩

/-! ### Any message, and the watchdog -/

theorem received_processZnpMsg (s : ZnpStartInstance) (cmd0 cmd1 : UInt8) :
    (s.processZnpMsg cfg cmd0 cmd1 data room).received =
      s.received ++ [⟨s.state, s.nbCycles, buildUint16 cmd0 cmd1, data⟩] := by
  have hregister : ∀ s : ZnpStartInstance,
      (s.toRegisterEndpoints cfg room).received = s.received := by
    intro s
    unfold toRegisterEndpoints registerEndPoints
    dsimp only
    split_ifs <;> rfl
  unfold processZnpMsg
  dsimp only
  cases s.state <;> dsimp only
  case waitInitialResetResp =>
    unfold processWaitInitialResetResp
    split_ifs <;> rfl
  case waitWriteParamResp =>
    unfold processWaitWriteParamResp processWaitInitialResetResp
    dsimp only
    split_ifs <;> rfl
  case waitReadParamResp =>
    unfold processWaitReadParamResp
    split_ifs
    · rw [hregister]
    · rfl
    · rfl
  case waitWriteResetResp =>
    unfold processWaitWriteResetResp
    split_ifs
    · rw [hregister]
    · rfl
  case waitRegisterEndpointsResp =>
    unfold processWaitRegisterEndpointsResp
    dsimp only
    split_ifs <;> rfl
  case waitRegisterZdoCallbacksResp =>
    unfold processWaitRegisterZdoCbResp
    dsimp only
    split_ifs <;> rfl
  case waitStartupFromAppResp =>
    unfold processWaitStartupFromAppResp
    split_ifs <;> rfl
  case starting =>
    unfold processZnpStartingIndication
    split_ifs <;> rfl
  case waitPanInfos =>
    unfold processWaitPanInfos
    dsimp only
    split_ifs <;> first | rfl | exact (deviceInfo_frame _ _).2.2.1
  case waitWritePanId =>
    unfold processWaitWritePanId
    split_ifs <;> rfl

theorem milestones_processZnpMsg (s : ZnpStartInstance) (cmd0 cmd1 : UInt8) :
    (s.processZnpMsg cfg cmd0 cmd1 data room).milestones cfg = s.milestones cfg ++
      ((⟨s.state, s.nbCycles, buildUint16 cmd0 cmd1, data⟩ : ReceivedMsg).milestone cfg).toList := by
  unfold milestones
  rw [received_processZnpMsg, filterMap_append]
  cases hmilestone :
      (⟨s.state, s.nbCycles, buildUint16 cmd0 cmd1, data⟩ : ReceivedMsg).milestone cfg with
  | none => rw [filterMap_cons_none hmilestone]; rfl
  | some m => rw [filterMap_cons_some hmilestone]; rfl

/-- The state awaits the end of a start-up, and the message is what it waits for. -/
def IsLast (s : ZnpStartInstance) (cmd : UInt16) : Prop :=
  s.state = .waitWritePanId ∧ cmd = mtSysNvWriteSrsp

instance (s : ZnpStartInstance) (cmd : UInt16) : Decidable (IsLast s cmd) :=
  inferInstanceAs (Decidable (_ ∧ _))

theorem underWay_processZnpMsg (h : s.completions = []) (hp : Progress cfg s (s.milestones cfg))
    (hlast : ¬IsLast s (buildUint16 cmd0 cmd1)) :
    UnderWay cfg (s.processZnpMsg cfg cmd0 cmd1 data room)
      ((s.processZnpMsg cfg cmd0 cmd1 data room).milestones cfg) := by
  rw [milestones_processZnpMsg]
  unfold processZnpMsg
  dsimp only
  cases hstate : s.state <;> dsimp only
  case null =>
    unfold Progress at hp
    rw [hstate] at hp
    exact hp.elim
  all_goals
    have hp' : Progress cfg
        { s with received :=
            s.received ++ [⟨s.state, s.nbCycles, buildUint16 cmd0 cmd1, data⟩] }
        (s.milestones cfg) := hp
    rw [← hstate]
  case waitInitialResetResp => exact underWay_waitInitialResetResp h hp' hstate
  case waitWriteParamResp => exact underWay_waitWriteParamResp h hp' hstate
  case waitReadParamResp => exact underWay_waitReadParamResp h hp' hstate
  case waitWriteResetResp => exact underWay_waitWriteResetResp h hp' hstate
  case waitRegisterEndpointsResp => exact underWay_waitRegisterEndpointsResp h hp' hstate
  case waitRegisterZdoCallbacksResp => exact underWay_waitRegisterZdoCbResp h hp' hstate
  case waitStartupFromAppResp => exact underWay_waitStartupFromAppResp h hp' hstate
  case starting => exact underWay_starting h hp' hstate
  case waitPanInfos => exact underWay_waitPanInfos h hp' hstate
  case waitWritePanId =>
    have hcmd : buildUint16 cmd0 cmd1 ≠ mtSysNvWriteSrsp := fun hcmd => hlast ⟨hstate, hcmd⟩
    have hnone : (⟨s.state, s.nbCycles, buildUint16 cmd0 cmd1, data⟩ : ReceivedMsg).milestone cfg =
        none := by
      rw [hstate]
      exact if_neg hcmd
    unfold processWaitWritePanId
    rw [if_neg hcmd, hnone, Option.toList_none, append_nil]
    exact .inl ⟨h, hp'⟩

theorem succeeded_processZnpMsg (h : s.completions = [])
    (hlast : IsLast s (buildUint16 cmd0 cmd1)) :
    (s.processZnpMsg cfg cmd0 cmd1 data room).completions = [true] ∧
      (s.processZnpMsg cfg cmd0 cmd1 data room).milestones cfg =
        s.milestones cfg ++ [.panIdWritten (byteAt data 0)] := by
  obtain ⟨hstate, hcmd⟩ := hlast
  constructor
  · unfold processZnpMsg
    dsimp only
    rw [hstate]
    dsimp only
    unfold processWaitWritePanId
    rw [if_pos hcmd]
    unfold doStartZnpCompletion
    dsimp only
    rw [h, nil_append]
  · have hsome : (⟨s.state, s.nbCycles, buildUint16 cmd0 cmd1, data⟩ : ReceivedMsg).milestone cfg =
        some (.panIdWritten (byteAt data 0)) := by
      rw [hstate]
      exact if_pos hcmd
    rw [milestones_processZnpMsg, hsome, Option.toList_some]

theorem underWay_start (h : s.completions = []) : UnderWay cfg s.start (s.start.milestones cfg) :=
  .inl ⟨h, rfl, rfl⟩

theorem underWay_watchdog (h : s.completions = []) (hp : Progress cfg s (s.milestones cfg)) :
    UnderWay cfg s.watchdog (s.watchdog.milestones cfg) := by
  unfold watchdog
  dsimp only
  split_ifs
  · exact underWay_start h
  · exact .inl ⟨h, hp⟩

end Steps

/-! ## A success that is reported -/

/-- The device information item that was received. -/
def Milestone.item? : Milestone → Option UInt8
  | .deviceInfo item => some item
  | _ => none

/-- The PAN identifier is written with success, after device information items of which none came
twice. -/
def WritesPanId (cfg : StartConfig) (s : ZnpStartInstance) : StartEvent → Prop
  | .znpMsg cmd0 cmd1 data _ =>
    IsLast s (buildUint16 cmd0 cmd1) →
      byteAt data 0 = statusCodeSuccess ∧ ((s.milestones cfg).filterMap Milestone.item?).Nodup
  | .watchdog => True

instance (cfg : StartConfig) (s : ZnpStartInstance) :
    (e : StartEvent) → Decidable (WritesPanId cfg s e)
  | .znpMsg cmd0 cmd1 data _ => inferInstanceAs <| Decidable <|
    IsLast s (buildUint16 cmd0 cmd1) →
      byteAt data 0 = statusCodeSuccess ∧ ((s.milestones cfg).filterMap Milestone.item?).Nodup
  | .watchdog => isTrue trivial

/-- A start-up is reported once, and as a success only when it is complete. -/
def ReportsComplete (cfg : StartConfig) (s : ZnpStartInstance) : Prop :=
  (true ∈ s.completions → StartUpComplete cfg (s.milestones cfg)) ∧ s.completions.length ≤ 1

section Items

variable {items : List UInt8} {status : UInt8}

theorem filterMap_item (n : Nat) (items : List UInt8) :
    (beforeInfos n ++ items.map Milestone.deviceInfo).filterMap Milestone.item? = items := by
  have hbefore : (beforeInfos n).filterMap Milestone.item? = [] := by
    refine filterMap_eq_nil_iff.mpr fun m hm => ?_
    unfold beforeInfos beforeCycle cycleMilestones at hm
    rw [if_neg (by decide)] at hm
    simp only [mem_append, mem_replicate, mem_singleton] at hm
    rcases hm with (((((⟨-, rfl⟩ | ⟨-, rfl⟩) | rfl) | rfl) | ((⟨-, rfl⟩ | ⟨-, rfl⟩) | rfl)) | rfl) <;>
      rfl
  rw [filterMap_append, hbefore, nil_append, filterMap_map]
  exact filterMap_some

theorem nodup_iff_all_items (hsub : items ⊆ deviceInfoItems) (hlength : items.length = 4) :
    items.Nodup ↔ deviceInfoItems ⊆ items := by
  have hnodup : deviceInfoItems.Nodup := by decide
  constructor
  · intro h
    have hperm := (subperm_of_subset h hsub).perm_of_length_le hlength.ge
    exact hperm.symm.subset
  · intro h
    have hperm := (subperm_of_subset hnodup h).perm_of_length_le hlength.le
    exact hperm.nodup hnodup

theorem startUpComplete_iff {cfg : StartConfig} (hsub : items ⊆ deviceInfoItems)
    (hlength : items.length = 4) :
    StartUpComplete cfg (beforeInfos cfg.endPointList.length ++ items.map Milestone.deviceInfo ++
        [.panIdWritten status]) ↔
      status = statusCodeSuccess ∧ items.Nodup := by
  rw [nodup_iff_all_items hsub hlength]
  unfold beforeInfos beforeCycle cycleMilestones
  rw [if_neg (by decide)]
  constructor
  · intro h
    have hstatus := h.panIdWritten
    have hitems := h.deviceInfo
    simp only [mem_append, mem_replicate, mem_singleton, mem_map,
      reduceCtorEq, and_false, exists_false, false_or, or_false, Milestone.panIdWritten.injEq,
      Milestone.deviceInfo.injEq, exists_eq_right] at hstatus hitems
    exact ⟨hstatus.symm, hitems⟩
  · rintro ⟨rfl, hall⟩
    refine ⟨?_, ?_, ?_, ?_, ?_, ?_, ?_⟩
    · intro cycle hcycle
      simp only [mem_cons, not_mem_nil, or_false] at hcycle
      rcases hcycle with rfl | rfl <;>
        simp [count_replicate, count_eq_zero]
    · intro cycle hcycle
      simp only [mem_cons, not_mem_nil, or_false] at hcycle
      rcases hcycle with rfl | rfl <;>
        simp [count_replicate, count_eq_zero, nbZdoMsgCbRegister]
    · intro cycle hcycle
      simp only [mem_cons, not_mem_nil, or_false] at hcycle
      rcases hcycle with rfl | rfl <;> simp
    · simp
    · simp
    · intro item hitem
      have hmem := hall hitem
      simp [hmem]
    · simp

end Items

section Runs

variable {cfg : StartConfig}

theorem progress_waitWritePanId {s : ZnpStartInstance} {ms : List Milestone}
    (hp : Progress cfg s ms) (hstate : s.state = .waitWritePanId) : ∃ items,
      ms = beforeInfos cfg.endPointList.length ++ items.map Milestone.deviceInfo ∧
        items ⊆ deviceInfoItems ∧ items.length = 4 := by
  unfold Progress at hp
  rwa [hstate] at hp

/-- An instance is under way, has failed, or has succeeded completely. -/
def Complete (cfg : StartConfig) (s : ZnpStartInstance) : Prop :=
  UnderWay cfg s (s.milestones cfg) ∨
    (s.completions = [true] ∧ StartUpComplete cfg (s.milestones cfg))

theorem Complete.reportsComplete {s : ZnpStartInstance} (h : Complete cfg s) :
    ReportsComplete cfg s := by
  unfold ReportsComplete
  rcases h with (⟨hnone, -⟩ | hfailed) | ⟨hsucceeded, hcomplete⟩
  · rw [hnone]
    exact ⟨fun hmem => absurd hmem not_mem_nil, Nat.zero_le _⟩
  · rw [hfailed]
    exact ⟨fun hmem => absurd hmem (by decide), Nat.le_refl _⟩
  · rw [hsucceeded]
    exact ⟨fun _ => hcomplete, Nat.le_refl _⟩

theorem Complete.progress {s : ZnpStartInstance} (h : Complete cfg s) (hnone : s.completions = []) :
    Progress cfg s (s.milestones cfg) := by
  rcases h with (⟨-, hp⟩ | hfailed) | ⟨hsucceeded, -⟩
  · exact hp
  · rw [hnone] at hfailed
    cases hfailed
  · rw [hnone] at hsucceeded
    cases hsucceeded

section

variable {s t : ZnpStartInstance}

theorem step_znpMsg {data : List UInt8} {room : UInt8 → Bool}
    (h : s.step cfg (.znpMsg cmd0 cmd1 data room) = some t) :
    s.completions = [] ∧ t = s.processZnpMsg cfg cmd0 cmd1 data room := by
  obtain ⟨hguard, ht⟩ := Option.ite_none_right_eq_some.mp h
  exact ⟨hguard.1, ((Option.some.injEq _ _).mp ht).symm⟩

theorem step_watchdog (h : s.step cfg .watchdog = some t) :
    s.completions = [] ∧ t = s.watchdog := by
  obtain ⟨hguard, ht⟩ := Option.ite_none_right_eq_some.mp h
  exact ⟨hguard, ((Option.some.injEq _ _).mp ht).symm⟩

theorem complete_step (h : Complete cfg s) (hwrites : WritesPanId cfg s e)
    (ht : s.step cfg e = some t) : Complete cfg t := by
  rcases e with ⟨cmd0, cmd1, data, room⟩ | _
  · obtain ⟨hnone, rfl⟩ := step_znpMsg ht
    have hp := h.progress hnone
    by_cases hlast : IsLast s (buildUint16 cmd0 cmd1)
    · obtain ⟨items, hitems, hsub, hlength⟩ := progress_waitWritePanId hp hlast.1
      obtain ⟨hstatus, hnodup⟩ := hwrites hlast
      rw [hitems, filterMap_item] at hnodup
      obtain ⟨hsucceeded, hms⟩ := succeeded_processZnpMsg hnone hlast
      refine .inr ⟨hsucceeded, ?_⟩
      rw [hms, hitems]
      exact (startUpComplete_iff hsub hlength).mpr ⟨hstatus, hnodup⟩
    · exact .inl (underWay_processZnpMsg hnone hp hlast)
  · obtain ⟨hnone, rfl⟩ := step_watchdog ht
    exact .inl (underWay_watchdog hnone (h.progress hnone))

theorem writesPanId_of_step (h : Complete cfg s) (ht : s.step cfg e = some t)
    (hreports : ReportsComplete cfg t) : WritesPanId cfg s e := by
  rcases e with ⟨cmd0, cmd1, data, room⟩ | _
  · obtain ⟨hnone, rfl⟩ := step_znpMsg ht
    intro hlast
    obtain ⟨items, hitems, hsub, hlength⟩ := progress_waitWritePanId (h.progress hnone) hlast.1
    have hdone : (s.processZnpMsg cfg cmd0 cmd1 data room).completions = [true] ∧
        (s.processZnpMsg cfg cmd0 cmd1 data room).milestones cfg =
          s.milestones cfg ++ [.panIdWritten (byteAt data 0)] := succeeded_processZnpMsg hnone hlast
    have hcomplete := hreports.1 (by rw [hdone.1]; exact mem_singleton_self _)
    rw [hdone.2, hitems] at hcomplete
    rw [hitems, filterMap_item]
    exact (startUpComplete_iff hsub hlength).mp hcomplete
  · trivial

end

/-- **A success is only reported after a complete start-up, and once**, in the runs that write the
PAN identifier with success after distinct device information items, and in no others. -/
theorem startUp_iff (cfg : StartConfig) (s : ZnpStartInstance) (h : s.completions = [])
    (es : List StartEvent) :
    Visits (ZnpStartInstance.step cfg) (ReportsComplete cfg) s.start es ↔
      Along (ZnpStartInstance.step cfg) (WritesPanId cfg) s.start es :=
  visits_iff_along (fun _ hs => hs.reportsComplete) (fun _ _ _ hs => complete_step hs)
    (fun _ _ _ hs => writesPanId_of_step hs) (.inl (underWay_start h))

end Runs

/-- A port with one end point, whose network is kept. -/
def oneEndPoint : StartConfig := ⟨false, [1], by decide⟩

/-- A message for which every request finds room. -/
def zmsg (cmd0 cmd1 : UInt8) (data : List UInt8) : StartEvent := .znpMsg cmd0 cmd1 data fun _ => true

/-- The responses of a cycle, after its parameters. -/
def cycleMsgs : List StartEvent :=
  [zmsg 0x64 0x00 [0]] ++ List.replicate 13 (zmsg 0x65 0x3E [0]) ++ [zmsg 0x65 0x40 [0]]

/-- A start-up, up to the coordinator indication. -/
def startUpMsgs : List StartEvent :=
  [zmsg 0x41 0x80 []] ++ List.replicate 3 (zmsg 0x61 0x09 [0]) ++ [zmsg 0x41 0x80 []] ++ cycleMsgs ++
    List.replicate 3 (zmsg 0x61 0x09 [0]) ++ [zmsg 0x61 0x08 [0, 1, 4]] ++ cycleMsgs ++
    [zmsg 0x45 0xC0 [9]]

/-- Four distinct items, and a success. -/
theorem startUp_distinct : Visits (ZnpStartInstance.step oneEndPoint) (ReportsComplete oneEndPoint)
    ({} : ZnpStartInstance).start (startUpMsgs ++ [zmsg 0x66 0x06 [2], zmsg 0x66 0x06 [1],
      zmsg 0x66 0x06 [6], zmsg 0x66 0x06 [7], zmsg 0x61 0x09 [0]]) :=
  (startUp_iff oneEndPoint {} rfl _).mpr (by decide +kernel)

/-- The state of a success with the short address only, received four times. -/
def shortAddrOnly : Bool :=
  (exec (ZnpStartInstance.step oneEndPoint) ({} : ZnpStartInstance).start
    (startUpMsgs ++ List.replicate 4 (zmsg 0x66 0x06 [2]) ++ [zmsg 0x61 0x09 [0]])).any fun s =>
      s.completions = [true] ∧ .deviceInfo devInfoIeeeAddr ∉ s.milestones oneEndPoint

/-- The short address received four times is a success. -/
theorem startUp_broken : ¬ ∀ (cfg : StartConfig) (s : ZnpStartInstance), s.completions = [] →
    ∀ es : List StartEvent,
      Visits (ZnpStartInstance.step cfg) (ReportsComplete cfg) s.start es := by
  intro h
  have hvisits := h oneEndPoint {} rfl
    (startUpMsgs ++ replicate 4 (zmsg 0x66 0x06 [2]) ++ [zmsg 0x61 0x09 [0]])
  have hend : shortAddrOnly = true := by decide +kernel
  obtain ⟨s, hs, hs'⟩ := (Option.any_eq_true _ _).mp hend
  obtain ⟨hcompletions, hitem⟩ := of_decide_eq_true hs'
  obtain ⟨hcomplete, -⟩ := visits_exec hvisits hs
  have hall := hcomplete (by rw [hcompletions]; exact mem_singleton_self _)
  exact hitem (hall.deviceInfo _ (by decide))

end Ong.Azap
