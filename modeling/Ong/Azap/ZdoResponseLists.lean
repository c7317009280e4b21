import Ong.Azap.PayloadBytes
import Ong.Azap.ZdoResponses

/-!
# The lists of ZDO responses and their counts

A list that is handed to a callback has as many elements as the count says exactly if the payload
has bytes for all of them.  The length check of a handler knows only the shortest and the longest
response.

## Main results

* `listMatches_array`, `listMatches_table`: when a list that a handler reads matches its count
* `zdoResponses_match_iff`: the condition for each of the handlers
-/

namespace Ong.Azap.Zdo

open CountedList List

section Fields

variable {payload data : List UInt8} {p : Nat}

theorem parseUint8AndShift_drop (h : p < payload.length) :
    parseUint8AndShift (payload.drop p) = (payload[p], payload.drop (p + 1)) := by
  rw [drop_eq_getElem_cons h]
  rfl

theorem parseUint8AndShift_drop_end (h : payload.length ≤ p) :
    parseUint8AndShift (payload.drop p) = (0, []) := by
  rw [drop_eq_nil_of_le h]
  rfl

theorem parseUint16AndShift_drop (h : p + 1 < payload.length) :
    parseUint16AndShift (payload.drop p) =
      (uint16 payload[p] payload[p + 1], payload.drop (p + 2)) := by
  rw [drop_eq_getElem_cons (show p < payload.length by omega), drop_eq_getElem_cons h]
  rfl

theorem parseExtAddrAndShift_drop (h : p + 8 ≤ payload.length) :
    parseExtAddrAndShift (payload.drop p) =
      (some ((payload.drop p).take 8), payload.drop (p + 8)) := by
  unfold parseExtAddrAndShift ieeeAddrLen
  rw [length_drop, if_neg (by omega), drop_drop]

theorem forall_processCallBack {ρ : Type} {minSize maxSize : Nat} {r : ρ} {P : ρ → Prop} :
    (∀ r' ∈ processCallBack minSize maxSize data r, P r') ↔
      (minSize ≤ data.length → data.length ≤ maxSize → P r) := by
  unfold processCallBack
  split
  · next hrefused =>
    refine ⟨fun _ hmin hmax => ?_, nofun⟩
    omega
  · next haccepted =>
    constructor
    · exact fun h _ _ => h r rfl
    · intro h r' hr'
      obtain rfl := Option.some.inj hr'
      exact h (by omega) (by omega)

end Fields

section Lists

variable {α : Type} {entry : List UInt8 → Option (α × List UInt8)} {parse : List UInt8 → α × List UInt8}
  {size : List UInt8 → Nat} {k : Nat} {bytes : List UInt8} {count : UInt8}

theorem listMatches_zero : ListMatches entry bytes 0 none :=
  ⟨rfl, rfl⟩

/-- A table has as many entries as the count says; they have been read if they fit in the
payload. -/
theorem listMatches_table (h : Reads entry parse size) :
    ListMatches entry bytes count (some (readMany parse count.toNat bytes).1) ↔
      Fits size count.toNat bytes := by
  unfold ListMatches
  rw [takeEntries_eq_some_iff h]
  exact ⟨fun hmatches => hmatches.2.1, fun hfits => ⟨length_readMany _ _, hfits, rfl⟩⟩

/-- An array is handed over if its bytes are there. -/
theorem listMatches_array (h : Reads entry parse fun _ => k) :
    ListMatches entry bytes count (parseArrayAndShift parse k bytes count).1 ↔
      k * count.toNat ≤ bytes.length := by
  unfold parseArrayAndShift
  split
  · next hzero =>
    obtain rfl := hzero
    exact ⟨fun _ => Nat.zero_le _, fun _ => listMatches_zero⟩
  · next hcount =>
    split
    · next hshort =>
      refine ⟨fun hmatches => absurd (UInt8.toNat_inj.mp hmatches.1.symm) hcount, fun hfits => ?_⟩
      omega
    · next hfits =>
      exact (listMatches_table h).trans (fits_const k)

theorem parseArrayAndShift_rest (h : Reads entry parse fun _ => k)
    (hfits : k * count.toNat ≤ bytes.length) :
    (parseArrayAndShift parse k bytes count).2 = bytes.drop (k * count.toNat) := by
  unfold parseArrayAndShift
  split
  · next hzero =>
    obtain rfl := hzero
    rfl
  · rw [if_neg (by omega)]
    exact readMany_rest h ((fits_const k).mpr hfits)

theorem reads_uint8 : Reads uint8Entry parseUint8AndShift fun _ => 1 where
  entry_eq text h := by
    cases text with
    | nil => exact absurd h (by decide)
    | cons b rest => rfl
  read_rest text h := by
    cases text with
    | nil => exact absurd h (by decide)
    | cons b rest => rfl
  entry_none text h := by
    obtain rfl := length_eq_zero_iff.mp (Nat.lt_one_iff.mp h)
    rfl

theorem reads_uint16 : Reads uint16Entry parseUint16AndShift fun _ => 2 where
  entry_eq
    | _ :: _ :: _, _ => rfl
    | [_], h => absurd h (Nat.not_succ_le_self 1)
    | [], h => absurd h (Nat.not_succ_le_zero 1)
  read_rest
    | _ :: _ :: _, _ => rfl
    | [_], h => absurd h (Nat.not_succ_le_self 1)
    | [], h => absurd h (Nat.not_succ_le_zero 1)
  entry_none
    | _ :: _ :: rest, h => absurd h (Nat.not_lt_of_le (Nat.le_add_left 2 rest.length))
    | [_], _ | [], _ => rfl

theorem reads_rtg : Reads rtgEntry parseRtgEntry fun _ => 5 where
  entry_eq text h := by
    match text, h with
    | _ :: _ :: _ :: _ :: _ :: _, _ => rfl
  read_rest text h := by
    match text, h with
    | _ :: _ :: _ :: _ :: _ :: _, _ => rfl
  entry_none text h := by
    match text, h with
    | [], _ | [_], _ => rfl
    | [_, _], _ => rfl
    | [_, _, _], _ => rfl
    | [_, _, _, _], _ => rfl
    | _ :: _ :: _ :: _ :: _ :: rest, h =>
      exact absurd h (Nat.not_lt_of_le (Nat.le_add_left 5 rest.length))

/-- The size of an entry of a binding table, by the mode of its destination. -/
def bindSize (bytes : List UInt8) : Nat :=
  if bytes[11]? = some zdoRtgAddrMode16bit then 14 else 21

theorem le_bindSize (bytes : List UInt8) : 14 ≤ bindSize bytes := by
  unfold bindSize
  split <;> omega

theorem exists_bind_fields (h : 12 ≤ bytes.length) :
    ∃ endPoint c0 c1 mode, bytes.drop 8 = endPoint :: c0 :: c1 :: mode :: bytes.drop 12 ∧
      bytes[11]? = some mode := by
  refine ⟨bytes[8], bytes[9], bytes[10], bytes[11], ?_, getElem?_eq_getElem _⟩
  rw [drop_eq_getElem_cons (show 8 < bytes.length by omega),
    drop_eq_getElem_cons (show 9 < bytes.length by omega),
    drop_eq_getElem_cons (show 10 < bytes.length by omega),
    drop_eq_getElem_cons (show 11 < bytes.length by omega)]

theorem parseExtAddrAndShift_eq (h : 8 ≤ bytes.length) :
    parseExtAddrAndShift bytes = (some (bytes.take 8), bytes.drop 8) :=
  if_neg (Nat.not_lt_of_le h)

theorem bindEntry_eq (h : bindSize bytes ≤ bytes.length) :
    bindEntry bytes = some (parseBindEntry bytes) ∧
      (parseBindEntry bytes).2 = bytes.drop (bindSize bytes) := by
  have hlength : 14 ≤ bytes.length := Nat.le_trans (le_bindSize bytes) h
  obtain ⟨endPoint, c0, c1, mode, hdrop, hmode⟩ := exists_bind_fields (show 12 ≤ bytes.length by omega)
  unfold bindSize at h ⊢
  rw [hmode] at h ⊢
  unfold bindEntry parseBindEntry
  rw [parseExtAddrAndShift_eq (by omega), hdrop]
  simp only [parseUint8AndShift, parseUint16AndShift, Option.some_inj]
  by_cases h16 : mode = zdoRtgAddrMode16bit
  · rw [drop_eq_getElem_cons (show 12 < bytes.length by omega),
      drop_eq_getElem_cons (show 13 < bytes.length by omega)]
    simp only [h16, if_true, and_self]
  · have hsome : ¬ some mode = some zdoRtgAddrMode16bit := fun heq => h16 (Option.some.inj heq)
    rw [if_neg hsome] at h
    have hdst : (bytes.drop 12).drop 8 = bytes[20] :: bytes.drop 21 := by
      rw [drop_drop, drop_eq_getElem_cons (show 12 + 8 < bytes.length by omega)]
    rw [parseExtAddrAndShift_eq (show 8 ≤ (bytes.drop 12).length by rw [length_drop]; omega)]
    simp only [h16, if_false, hdst, and_self]

theorem bindEntry_none (h : bytes.length < bindSize bytes) : bindEntry bytes = none := by
  by_cases hlength : 12 ≤ bytes.length
  · obtain ⟨endPoint, c0, c1, mode, hdrop, hmode⟩ := exists_bind_fields hlength
    unfold bindSize at h
    rw [hmode] at h
    unfold bindEntry
    rw [hdrop]
    dsimp only
    by_cases h16 : mode = zdoRtgAddrMode16bit
    · rw [if_pos (congrArg some h16)] at h
      rw [if_pos h16]
      have hdst : (bytes.drop 12).length < 2 := by
        rw [length_drop]
        omega
      match bytes.drop 12, hdst with
      | [], _ | [_], _ => rfl
      | _ :: _ :: rest, hdst => exact absurd hdst (Nat.not_lt_of_le (Nat.le_add_left 2 rest.length))
    · have hsome : ¬ some mode = some zdoRtgAddrMode16bit := fun heq => h16 (Option.some.inj heq)
      rw [if_neg hsome] at h
      rw [if_neg h16, drop_drop, drop_eq_nil_of_le (by omega)]
  · have hdrop : (bytes.drop 8).length < 4 := by
      rw [length_drop]
      omega
    unfold bindEntry
    match bytes.drop 8, hdrop with
    | [], _ | [_], _ => rfl
    | [_, _], _ => rfl
    | [_, _, _], _ => rfl
    | _ :: _ :: _ :: _ :: rest, hdrop =>
      exact absurd hdrop (Nat.not_lt_of_le (Nat.le_add_left 4 rest.length))

theorem reads_bind : Reads bindEntry parseBindEntry bindSize where
  entry_eq _ h := (bindEntry_eq h).1
  read_rest _ h := (bindEntry_eq h).2
  entry_none _ h := bindEntry_none h

theorem listMatches_counted {payload : List UInt8} {p : Nat} (h : Reads entry parse fun _ => k) :
    ListMatches entry (payload.drop (p + 1)) (parseUint8AndShift (payload.drop p)).1
        (parseArrayAndShift parse k (parseUint8AndShift (payload.drop p)).2
          (parseUint8AndShift (payload.drop p)).1).1 ↔
      ∀ n, payload[p]? = some n → p + 1 + k * n.toNat ≤ payload.length := by
  by_cases hp : p < payload.length
  · rw [parseUint8AndShift_drop hp, getElem?_eq_getElem hp]
    dsimp only
    rw [listMatches_array h, length_drop]
    constructor
    · rintro hfits n hn
      obtain rfl := Option.some.inj hn
      omega
    · intro hfits
      have := hfits _ rfl
      omega
  · rw [parseUint8AndShift_drop_end (Nat.le_of_not_lt hp),
      getElem?_eq_none (Nat.le_of_not_lt hp)]
    exact ⟨nofun, fun _ => listMatches_zero⟩

end Lists

section Handlers

variable {payload : List UInt8}

/-- The lengths that the handler checks, and a status of success. -/
def Accepted (minSize maxSize : Nat) (payload : List UInt8) : Prop :=
  minSize ≤ payload.length ∧ payload.length ≤ maxSize ∧ payload[0]? = some statusCodeSuccess

theorem handled_iff {ρ : Type} {minSize maxSize : Nat} {r : ρ} {P : ρ → Prop} {C : Prop}
    (hpos : 0 < minSize)
    (hfailed : ∀ status, parseUint8AndShift payload = (status, payload.drop 1) →
      status ≠ statusCodeSuccess → P r)
    (hsuccess : minSize ≤ payload.length →
      parseUint8AndShift payload = (statusCodeSuccess, payload.drop 1) → (P r ↔ C)) :
    (∀ r' ∈ processCallBack minSize maxSize payload r, P r') ↔
      (Accepted minSize maxSize payload → C) := by
  have hread (h : 0 < payload.length) :
      parseUint8AndShift payload = (payload[0], payload.drop 1) := parseUint8AndShift_drop h
  rw [forall_processCallBack]
  constructor
  · rintro hP ⟨hmin, hmax, hstatus⟩
    have hlength : 0 < payload.length := Nat.lt_of_lt_of_le hpos hmin
    rw [getElem?_eq_getElem hlength] at hstatus
    exact (hsuccess hmin (Option.some.inj hstatus ▸ hread hlength)).mp (hP hmin hmax)
  · intro hC hmin hmax
    have hlength : 0 < payload.length := Nat.lt_of_lt_of_le hpos hmin
    by_cases hstatus : payload[0] = statusCodeSuccess
    · refine (hsuccess hmin (hstatus ▸ hread hlength)).mpr (hC ⟨hmin, hmax, ?_⟩)
      rw [getElem?_eq_getElem hlength, hstatus]
    · exact hfailed _ (hread hlength) hstatus

/-- The associated devices follow both numbers, in whichever order these are. -/
def AddrRsp.Matches (payload : List UInt8) (r : AddrRsp) : Prop :=
  ListMatches uint16Entry (payload.drop 13) r.numAssocDev r.nwkAddrAssocDevList

theorem nwkAddrRsp_matches_iff :
    (∀ r ∈ azapProcessZdoNwkAddrRspCb payload, r.Matches payload) ↔
      (Accepted 0x0C 0x52 payload →
        ∀ n, payload[12]? = some n → 13 + 2 * n.toNat ≤ payload.length) := by
  refine handled_iff (by decide) (fun status hread hstatus => ?_) fun hmin hread => ?_
  · simp only [hread, hstatus, if_false]
    exact listMatches_zero
  · simp only [hread, if_true,
      parseExtAddrAndShift_drop (show 1 + 8 ≤ payload.length by omega),
      parseUint16AndShift_drop (show 9 + 1 < payload.length by omega),
      parseUint8AndShift_drop (show 11 < payload.length by omega)]
    exact listMatches_counted reads_uint16

theorem ieeeAddrRsp_matches_iff :
    (∀ r ∈ azapProcessZdoIeeeAddrRspCb payload, r.Matches payload) ↔
      (Accepted 0x0B 0x52 payload →
        ∀ n, payload[11]? = some n → n = 0 ∨ 13 + 2 * n.toNat ≤ payload.length) := by
  refine handled_iff (by decide) (fun status hread hstatus => ?_) fun hmin hread => ?_
  · simp only [hread, hstatus, if_false]
    exact listMatches_zero
  · simp only [hread, if_true,
      parseExtAddrAndShift_drop (show 1 + 8 ≤ payload.length by omega),
      parseUint16AndShift_drop (show 9 + 1 < payload.length by omega)]
    unfold AddrRsp.Matches
    by_cases hcount : 11 < payload.length
    · rw [parseUint8AndShift_drop hcount, getElem?_eq_getElem hcount]
      have hrest : (parseUint8AndShift (payload.drop 12)).2 = payload.drop 13 := by
        by_cases hstart : 12 < payload.length
        · rw [parseUint8AndShift_drop hstart]
        · rw [parseUint8AndShift_drop_end (Nat.le_of_not_lt hstart),
            drop_eq_nil_of_le (by omega)]
      dsimp only
      rw [hrest]
      refine (listMatches_array reads_uint16).trans ?_
      rw [length_drop]
      constructor
      · intro hfits n hn
        obtain rfl := Option.some.inj hn
        by_cases hzero : payload[11] = 0
        · exact .inl hzero
        · have hpos : payload[11].toNat ≠ 0 := fun h => hzero (UInt8.toNat_inj.mp h)
          right
          omega
      · intro hfits
        rcases hfits _ rfl with hzero | hfits
        · rw [hzero, UInt8.toNat_zero]
          omega
        · omega
    · rw [parseUint8AndShift_drop_end (Nat.le_of_not_lt hcount),
        getElem?_eq_none (Nat.le_of_not_lt hcount)]
      exact ⟨nofun, fun _ => listMatches_zero⟩

/-- The end points follow their number. -/
def ActiveEPRsp.Matches (payload : List UInt8) (r : ActiveEPRsp) : Prop :=
  ListMatches uint8Entry (payload.drop 4) r.activeEpCount r.activeEpList

theorem activeEPRsp_matches_iff :
    (∀ r ∈ azapProcessZdoActiveEPRspCb payload, r.Matches payload) ↔
      (Accepted 0x04 0x51 payload →
        ∀ n, payload[3]? = some n → 4 + n.toNat ≤ payload.length) := by
  refine handled_iff (by decide) (fun status hread hstatus => ?_) fun hmin hread => ?_
  · simp only [hread, hstatus, if_false]
    exact listMatches_zero
  · simp only [hread, if_true,
      parseUint16AndShift_drop (show 1 + 1 < payload.length by omega)]
    refine (listMatches_counted reads_uint8).trans ?_
    simp only [Nat.one_mul]

/-- Each list of clusters follows its number. -/
def SimpleDescRsp.Matches (payload : List UInt8) (r : SimpleDescRsp) : Prop :=
  ListMatches uint16Entry (payload.drop 11) r.numInClusters r.inClusterList ∧
    ListMatches uint16Entry (payload.drop (12 + 2 * r.numInClusters.toNat)) r.numOutClusters
      r.outClusterList

/-- A description that ends before the number of input clusters is handed over without clusters,
whatever fields the parsers have found in it. -/
theorem simpleDesc_short (hlong : payload.length ≤ 10) :
    ∀ r ∈ azapProcessZdoSimpleDescRspCb payload, r.numInClusters = 0 ∧ r.inClusterList = none ∧
      r.numOutClusters = 0 ∧ r.outClusterList = none := by
  unfold azapProcessZdoSimpleDescRspCb
  rw [forall_processCallBack]
  intro hmin _
  match payload, hmin, hlong with
  | [_, _, _, _], _, _ | [_, _, _, _, _], _, _ | [_, _, _, _, _, _], _, _
  | [_, _, _, _, _, _, _], _, _ | [_, _, _, _, _, _, _, _], _, _
  | [_, _, _, _, _, _, _, _, _], _, _ | [_, _, _, _, _, _, _, _, _, _], _, _ =>
    dsimp only [parseUint8AndShift]
    split <;> exact ⟨rfl, rfl, rfl, rfl⟩

theorem simpleDescRsp_matches_iff :
    (∀ r ∈ azapProcessZdoSimpleDescRspCb payload, r.Matches payload) ↔
      (Accepted 0x04 0x4C payload →
        ∀ i, payload[10]? = some i → 11 + 2 * i.toNat ≤ payload.length ∧
          ∀ o, payload[11 + 2 * i.toNat]? = some o →
            12 + 2 * i.toNat + 2 * o.toNat ≤ payload.length) := by
  by_cases hshort : payload.length ≤ 10
  · rw [getElem?_eq_none hshort]
    refine ⟨nofun, fun _ r hr => ?_⟩
    obtain ⟨hin, hinList, hout, houtList⟩ := simpleDesc_short hshort r hr
    unfold SimpleDescRsp.Matches
    rw [hin, hinList, hout, houtList]
    exact ⟨listMatches_zero, listMatches_zero⟩
  refine handled_iff (by decide) (fun status hread hstatus => ?_) fun hmin hread => ?_
  · simp only [hread, hstatus, if_false]
    exact ⟨listMatches_zero, listMatches_zero⟩
  · have hten : 10 < payload.length := by omega
    simp only [hread, if_true,
      parseUint16AndShift_drop (show 1 + 1 < payload.length by omega),
      parseUint8AndShift_drop (show 3 < payload.length by omega),
      parseUint8AndShift_drop (show 4 < payload.length by omega),
      parseUint16AndShift_drop (show 5 + 1 < payload.length by omega),
      parseUint16AndShift_drop (show 7 + 1 < payload.length by omega),
      parseUint8AndShift_drop (show 9 < payload.length by omega),
      parseUint8AndShift_drop hten, getElem?_eq_getElem hten]
    unfold SimpleDescRsp.Matches parseUint16ArrayAndShift
    generalize payload[10] = i
    simp only [Option.some_inj, forall_eq']
    have hin : ListMatches uint16Entry (payload.drop 11) i
        (parseArrayAndShift parseUint16AndShift 2 (payload.drop 11) i).1 ↔
          11 + 2 * i.toNat ≤ payload.length := by
      rw [listMatches_array reads_uint16, length_drop]
      omega
    rw [hin]
    refine and_congr_right fun hfits => ?_
    have hrest : (parseArrayAndShift parseUint16AndShift 2 (payload.drop 11) i).2 =
        payload.drop (11 + 2 * i.toNat) := by
      rw [parseArrayAndShift_rest reads_uint16 (by rw [length_drop]; omega), drop_drop]
    have hplace : 12 + 2 * i.toNat = 11 + 2 * i.toNat + 1 := by omega
    rw [hrest, hplace]
    exact listMatches_counted reads_uint16

/-- The entries of the table follow their number. -/
def TableRsp.Matches {ε : Type} (entry : List UInt8 → Option (ε × List UInt8)) (payload : List UInt8)
    (r : TableRsp ε) : Prop :=
  ListMatches entry (payload.drop 4) r.tableListCount r.tableList

theorem tableRsp_matches_iff {ε : Type} {entry : List UInt8 → Option (ε × List UInt8)}
    {parse : List UInt8 → ε × List UInt8} {size : List UInt8 → Nat} (h : Reads entry parse size) :
    (∀ r ∈ processCallBack 0x04 0x4F payload (processTable parse payload), r.Matches entry payload) ↔
      (Accepted 0x04 0x4F payload →
        ∀ n, payload[3]? = some n → Fits size n.toNat (payload.drop 4)) := by
  unfold processTable
  refine handled_iff (by decide) (fun status hread hstatus => ?_) fun hmin hread => ?_
  · simp only [hread, hstatus, if_false]
    exact listMatches_zero
  · simp only [hread, if_true,
      parseUint8AndShift_drop (show 1 < payload.length by omega),
      parseUint8AndShift_drop (show 2 < payload.length by omega),
      parseUint8AndShift_drop (show 3 < payload.length by omega),
      getElem?_eq_getElem (show 3 < payload.length by omega)]
    refine (listMatches_table h).trans ⟨fun hfits n hn => ?_, fun hfits => hfits _ rfl⟩
    obtain rfl := Option.some.inj hn
    exact hfits

/-- **The lists of the ZDO responses match their counts** exactly when the payload has bytes for as
many elements as it says. -/
theorem zdoResponses_match_iff (payload : List UInt8) :
    ((∀ r ∈ azapProcessZdoNwkAddrRspCb payload, r.Matches payload) ↔
      (Accepted 0x0C 0x52 payload →
        ∀ n, payload[12]? = some n → 13 + 2 * n.toNat ≤ payload.length)) ∧
    ((∀ r ∈ azapProcessZdoIeeeAddrRspCb payload, r.Matches payload) ↔
      (Accepted 0x0B 0x52 payload →
        ∀ n, payload[11]? = some n → n = 0 ∨ 13 + 2 * n.toNat ≤ payload.length)) ∧
    ((∀ r ∈ azapProcessZdoSimpleDescRspCb payload, r.Matches payload) ↔
      (Accepted 0x04 0x4C payload →
        ∀ i, payload[10]? = some i → 11 + 2 * i.toNat ≤ payload.length ∧
          ∀ o, payload[11 + 2 * i.toNat]? = some o →
            12 + 2 * i.toNat + 2 * o.toNat ≤ payload.length)) ∧
    ((∀ r ∈ azapProcessZdoActiveEPRspCb payload, r.Matches payload) ↔
      (Accepted 0x04 0x51 payload → ∀ n, payload[3]? = some n → 4 + n.toNat ≤ payload.length)) ∧
    ((∀ r ∈ azapProcessZdoMgmtRtgRspCb payload, r.Matches rtgEntry payload) ↔
      (Accepted 0x04 0x4F payload →
        ∀ n, payload[3]? = some n → 4 + 5 * n.toNat ≤ payload.length)) ∧
    ((∀ r ∈ azapProcessZdoMgmtBindRspCb payload, r.Matches bindEntry payload) ↔
      (Accepted 0x04 0x4F payload →
        ∀ n, payload[3]? = some n → Fits bindSize n.toNat (payload.drop 4))) := by
  refine ⟨nwkAddrRsp_matches_iff, ieeeAddrRsp_matches_iff, simpleDescRsp_matches_iff,
    activeEPRsp_matches_iff, ?_, tableRsp_matches_iff reads_bind⟩
  refine (tableRsp_matches_iff reads_rtg).trans ?_
  refine imp_congr_right fun haccepted => ?_
  obtain ⟨hmin, -, -⟩ := haccepted
  refine forall_congr' fun n => imp_congr_right fun _ => ?_
  rw [fits_const, length_drop]
  omega

/-- Three end points are announced and one is there. -/
theorem activeEP_count_without_list :
    ¬ ∀ r ∈ azapProcessZdoActiveEPRspCb [0, 0x34, 0x12, 3, 1], r.Matches [0, 0x34, 0x12, 3, 1] := by
  intro h
  have hmatches := h ⟨0, 0x1234, 3, none⟩ (by decide)
  exact absurd hmatches.1 (by decide)

end Handlers

end Ong.Azap.Zdo
