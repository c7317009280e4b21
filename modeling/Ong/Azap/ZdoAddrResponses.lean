import Ong.Azap.ZdoResponseLists

/-!
# The two address responses

`NWK_addr_rsp` and `IEEE_addr_rsp` have one payload.  Their handlers read it alike but for two bytes:
one takes the count of the associated devices for the start index, and the start index for the count.

## Main results

* `agree_iff`: they agree exactly on the payloads that say the same in the two bytes, or no success
-/

namespace Ong.Azap.Zdo

section Agree

variable (data : List UInt8)

/-- The address responses agree on a payload that both admit. -/
def Agree : Prop :=
  ∀ nwk ieee, azapProcessZdoNwkAddrRspCb data = some nwk →
    azapProcessZdoIeeeAddrRspCb data = some ieee → nwk = ieee

/-- The two bytes behind the addresses; a byte that is not there is 0. -/
def SameCounts : Prop := data.getD 11 0 = data.getD 12 0

instance : Decidable (SameCounts data) := inferInstanceAs (Decidable (_ = _))

variable {data} {s b1 b2 b3 b4 b5 b6 b7 b8 n0 n1 x : UInt8} {rest : List UInt8}

theorem addrRsps_of_success (hs : s = statusCodeSuccess)
    (hdata : data = s :: b1 :: b2 :: b3 :: b4 :: b5 :: b6 :: b7 :: b8 :: n0 :: n1 :: x :: rest)
    (hmax : data.length ≤ 0x52) :
    azapProcessZdoNwkAddrRspCb data =
        some ⟨s, [b1, b2, b3, b4, b5, b6, b7, b8], uint16 n0 n1, (parseUint8AndShift rest).1, x,
          (parseUint16ArrayAndShift (parseUint8AndShift rest).2 (parseUint8AndShift rest).1).1⟩ ∧
      azapProcessZdoIeeeAddrRspCb data =
        some ⟨s, [b1, b2, b3, b4, b5, b6, b7, b8], uint16 n0 n1, x, (parseUint8AndShift rest).1,
          (parseUint16ArrayAndShift (parseUint8AndShift rest).2 x).1⟩ := by
  subst hdata hs
  simp only [List.length_cons] at hmax
  constructor
  · rw [azapProcessZdoNwkAddrRspCb, processCallBack, if_neg (by simp only [List.length_cons]; omega)]
    rfl
  · rw [azapProcessZdoIeeeAddrRspCb, processCallBack, if_neg (by simp only [List.length_cons]; omega)]
    rfl

theorem addrRsps_of_failure (hs : s ≠ statusCodeSuccess) (hdata : data = s :: rest)
    (hmin : 0x0C ≤ data.length) (hmax : data.length ≤ 0x52) :
    azapProcessZdoNwkAddrRspCb data = azapProcessZdoIeeeAddrRspCb data := by
  subst hdata
  rw [azapProcessZdoNwkAddrRspCb, azapProcessZdoIeeeAddrRspCb, processCallBack, processCallBack,
    if_neg (by omega), if_neg (by omega)]
  exact congrArg some ((if_neg hs).trans (if_neg hs).symm)

theorem exists_addr_bytes (h : 0x0C ≤ data.length) :
    ∃ s b1 b2 b3 b4 b5 b6 b7 b8 n0 n1 x rest,
      data = s :: b1 :: b2 :: b3 :: b4 :: b5 :: b6 :: b7 :: b8 :: n0 :: n1 :: x :: rest := by
  match data, h with
  | s :: b1 :: b2 :: b3 :: b4 :: b5 :: b6 :: b7 :: b8 :: n0 :: n1 :: x :: rest, _ =>
    exact ⟨s, b1, b2, b3, b4, b5, b6, b7, b8, n0, n1, x, rest, rfl⟩

theorem sameCounts_iff :
    SameCounts (s :: b1 :: b2 :: b3 :: b4 :: b5 :: b6 :: b7 :: b8 :: n0 :: n1 :: x :: rest) ↔
      x = (parseUint8AndShift rest).1 := by
  cases rest <;> rfl

/-- **The two handlers agree exactly where the count and the start index are the same byte.** -/
theorem agree_iff (data : List UInt8) :
    Agree data ↔ (0x0C ≤ data.length → data.length ≤ 0x52 →
      data.head? = some statusCodeSuccess → SameCounts data) := by
  constructor
  · intro h hmin hmax hs
    obtain ⟨s, b1, b2, b3, b4, b5, b6, b7, b8, n0, n1, x, rest, rfl⟩ := exists_addr_bytes hmin
    obtain ⟨hnwk, hieee⟩ := addrRsps_of_success (Option.some.inj hs) rfl hmax
    have hsame := h _ _ hnwk hieee
    exact sameCounts_iff.mpr (congrArg AddrRsp.startIndex hsame)
  · intro h nwk ieee hnwk hieee
    have hadmitted : 0x0C ≤ data.length ∧ data.length ≤ 0x52 := by
      unfold azapProcessZdoNwkAddrRspCb processCallBack at hnwk
      split at hnwk
      · cases hnwk
      · omega
    obtain ⟨hmin, hmax⟩ := hadmitted
    obtain ⟨s, b1, b2, b3, b4, b5, b6, b7, b8, n0, n1, x, rest, rfl⟩ := exists_addr_bytes hmin
    by_cases hs : s = statusCodeSuccess
    · have hcounts := sameCounts_iff.mp (h hmin hmax (by rw [hs]; rfl))
      obtain ⟨hnwk', hieee'⟩ := addrRsps_of_success hs rfl hmax
      rw [hnwk'] at hnwk
      rw [hieee'] at hieee
      rw [← Option.some.inj hnwk, ← Option.some.inj hieee, ← hcounts]
    · rw [addrRsps_of_failure hs rfl hmin hmax, hieee] at hnwk
      exact (Option.some.inj hnwk).symm

/-- A device with one associated device, and the start index 0. -/
theorem associated_device_lost :
    ¬ Agree [0x00, 1, 2, 3, 4, 5, 6, 7, 8, 0x34, 0x12, 0x01, 0x00, 0x78, 0x56] := by
  intro h
  have hsame := h _ _ rfl rfl
  exact absurd (congrArg AddrRsp.startIndex hsame) (by decide)

end Agree

end Ong.Azap.Zdo
