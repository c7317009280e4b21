import Ong.Lib.Blocks
import Ong.Dia.BlockWise

/-!
# What the handlers do with the messages of a transaction

## Main results

* `write_first_block`, `write_block`: the first block of a payload, and a later one
* `hnd_request_more`, `hnd_request_last`, `hnd_request_whole`: what a server does with a block of a
  request, with the last one, and with a request in one message
-/

namespace Ong.Dia

open Blocks List Server Client Option

variable {others l : List DiaRequest}

section List

variable {tid : Nat} {dr ds : DiaRequest} {g : List UInt8}

section

variable (dr : DiaRequest) (ctt : List UInt8)

@[simp] theorem storeFragment_payload :
    (dr.storeFragment ctt).payload = dr.payload ++ ctt := rfl

@[simp] theorem storeFragment_tid :
    (dr.storeFragment ctt).tid = dr.tid := rfl

@[simp] theorem storeFragment_typeReq :
    (dr.storeFragment ctt).typeReq = dr.typeReq := rfl

end

theorem find_tid_concat (h : find_tid others tid = none) (hds : ds.tid = tid) :
    find_tid (others ++ [ds]) tid = some ds := by
  rw [find_tid, find?_append, ← find_tid, h]
  simp [hds]

theorem search_tid_concat (h : find_tid others tid = none) (hds : ds.tid = tid) :
    search_tid (others ++ [ds]) tid = ds := by
  rw [search_tid, find_tid_concat h hds, getD_some]

theorem search_tid_of_none (h : find_tid others tid = none) :
    search_tid others tid = alloc_dr tid := by
  rw [search_tid, h, getD_none]

theorem put_of_none (h : find_tid others dr.tid = none) : put others dr = others ++ [dr] := by
  induction others with
  | nil => rfl
  | cons d l ih =>
    rw [find_tid, find?_cons] at h
    split at h
    · cases h
    · next hd => rw [put, if_neg (by simpa using hd), ih h, cons_append]

theorem put_concat (h : find_tid others dr.tid = none) (hds : ds.tid = dr.tid) :
    put (others ++ [ds]) dr = others ++ [dr] := by
  induction others with
  | nil => exact if_pos hds
  | cons d l ih =>
    rw [find_tid, find?_cons] at h
    split at h
    · cases h
    · next hd =>
      rw [cons_append, put, if_neg (by simpa using hd), ih h, cons_append]

theorem free_dr_concat (h : find_tid others tid = none) (hds : ds.tid = tid) :
    free_dr (others ++ [ds]) tid = others := by
  have hnone : ∀ d ∈ others, ¬ decide (d.tid = tid) = true := find?_eq_none.mp h
  rw [free_dr, eraseP_append_right _ hnone]
  simp [hds]

/-- The list is `others`, or has one entry more, the transaction's; the entry has gathered `g`. -/
def Holds (others : List DiaRequest) (tid : Nat) (l : List DiaRequest) (g : List UInt8) : Prop :=
  l = others ∧ g = [] ∨ ∃ ds, l = others ++ [ds] ∧ ds.tid = tid ∧ ds.payload = g

theorem Holds.search_tid (h : Holds others tid l g) (hnone : find_tid others tid = none) :
    (search_tid l tid).tid = tid ∧ (search_tid l tid).payload = g := by
  rcases h with ⟨rfl, rfl⟩ | ⟨ds, rfl, hds, hg⟩
  · rw [search_tid_of_none hnone]
    exact ⟨rfl, rfl⟩
  · rw [search_tid_concat hnone hds]
    exact ⟨hds, hg⟩

/-- The server does not go on with an early negotiation: it gathers nothing, or is asked for none. -/
theorem not_early {b2 : Option Block} (h : Holds others tid l g)
    (hnone : find_tid others tid = none) (hb : b2 = none ∨ g = []) :
    ¬ (b2.isSome = true ∧ (search_tid l tid).payload ≠ []) := by
  rw [(h.search_tid hnone).2]
  rcases hb with rfl | rfl <;> simp

theorem Holds.put (h : Holds others tid l g) (hnone : find_tid others tid = none)
    (hdr : dr.tid = tid) : put l dr = others ++ [dr] := by
  subst hdr
  rcases h with ⟨rfl, -⟩ | ⟨ds, rfl, hds, -⟩
  · exact put_of_none hnone
  · exact put_concat hnone hds

theorem Holds.concat (hds : ds.tid = tid) (hg : ds.payload = g) :
    Holds others tid (others ++ [ds]) g := .inr ⟨ds, rfl, hds, hg⟩

end List

section Blocks

variable {maxSize szx num n : Nat} {pdu : Pdu} {type : BlockOption} {payload : List UInt8} {m : Bool}

/-- The size of the blocks of a payload, when a size is asked for and `length` bytes of the first
message are used. -/
def firstSzx (maxSize length szx : Nat) : Nat :=
  if blockSize szx ≤ maxSize - length - 4 then szx else coap_fls (maxSize - length - 4) - 5

/-- libcoap can send a payload of `n` bytes in blocks: the smallest one fits beside the options, and
the numbers of the blocks have 20 bits. -/
def Splittable (maxSize length szx n : Nat) : Prop :=
  16 ≤ maxSize - length - 4 ∧ n ≤ 2 ^ 20 * blockSize (firstSzx maxSize length szx)

theorem blockSize_pos (szx : Nat) : 0 < blockSize szx := Nat.two_pow_pos _

theorem le_blockSize (szx : Nat) : 16 ≤ blockSize szx := by
  rw [blockSize, Nat.pow_add]
  exact Nat.le_mul_of_pos_left 16 (Nat.two_pow_pos szx)

theorem blockSize_firstSzx_le {length : Nat} (h : 16 ≤ maxSize - length - 4) :
    blockSize (firstSzx maxSize length szx) ≤ maxSize - length - 4 := by
  unfold firstSzx
  split
  · assumption
  · have hne : maxSize - length - 4 ≠ 0 := by omega
    have hlog : 4 ≤ (maxSize - length - 4).log2 := (Nat.le_log2 hne).mpr h
    have hexp : coap_fls (maxSize - length - 4) - 5 + 4 = (maxSize - length - 4).log2 := by
      rw [coap_fls, if_neg hne]
      omega
    rw [blockSize, hexp]
    exact Nat.log2_self_le hne

theorem length_addBlockOption_le (pdu : Pdu) (type : BlockOption) (b : Block) :
    (pdu.addBlockOption type b).length ≤ pdu.length + 4 := by
  cases type <;> simp only [Pdu.addBlockOption, Pdu.length, Pdu.blockLength] <;> omega

@[simp] theorem data_addBlockOption (pdu : Pdu) (type : BlockOption) (b : Block) :
    (pdu.addBlockOption type b).data = pdu.data := by
  cases type <;> rfl

/-- The message with a block of a payload and its option. -/
def withBlock (pdu : Pdu) (type : BlockOption) (num szx : Nat) (payload : List UInt8) : Pdu :=
  { pdu.addBlockOption type ⟨num, (num + 1) * blockSize szx < payload.length, szx⟩ with
    data := block (blockSize szx) num payload }

theorem add_block (h : blockSize szx ≤ maxSize - pdu.length - 4) (hdata : pdu.data = [])
    (hnum : num * blockSize szx < payload.length) :
    coap_add_block maxSize (pdu.addBlockOption type ⟨num, m, szx⟩) payload num szx =
      { pdu.addBlockOption type ⟨num, m, szx⟩ with data := block (blockSize szx) num payload } := by
  have hle := length_addBlockOption_le pdu type ⟨num, m, szx⟩
  have hpos := blockSize_pos szx
  have hlen : (block (blockSize szx) num payload).length ≤ blockSize szx := length_take_le _ _
  rw [coap_add_block, if_neg (Nat.not_le.mpr hnum), take_min_drop, coap_add_data,
    if_neg (by omega), getD_some, data_addBlockOption, hdata, nil_append]

section

variable (pdu : Pdu) (m : Bool) (type : BlockOption)

/-- **A block after the first.** -/
theorem write_block (h : blockSize szx ≤ maxSize - pdu.length - 4) (hdata : pdu.data = [])
    (hnum : num * blockSize szx < payload.length) :
    ∃ b, coap_write_block_opt maxSize ⟨num, m, szx⟩ type pdu payload.length =
        (⟨num, (num + 1) * blockSize szx < payload.length, szx⟩, b) ∧
      coap_add_block maxSize b payload num szx = withBlock pdu type num szx payload := by
  have hsucc : (num + 1) * blockSize szx = num * blockSize szx + blockSize szx := Nat.succ_mul _ _
  have hm : decide (blockSize szx < payload.length - num * blockSize szx) =
      decide ((num + 1) * blockSize szx < payload.length) := by
    rw [decide_eq_decide, hsucc]
    omega
  refine ⟨pdu.addBlockOption type ⟨num, (num + 1) * blockSize szx < payload.length, szx⟩, ?_,
    add_block h hdata hnum⟩
  simp only [coap_write_block_opt]
  rw [if_neg (Nat.not_le.mpr hnum), if_pos h, hm]

/-- **The first block of a payload that does not fit**, of the size that was asked for or a smaller
one. -/
theorem write_first_block (szx : Nat) (hlong : maxSize < pdu.length + payload.length)
    (h : 16 ≤ maxSize - pdu.length - 4) (hdata : pdu.data = []) :
    ∃ b, coap_write_block_opt maxSize ⟨0, m, szx⟩ type pdu payload.length =
        (⟨0, true, firstSzx maxSize pdu.length szx⟩, b) ∧
      coap_add_block maxSize b payload 0 (firstSzx maxSize pdu.length szx) =
        withBlock pdu type 0 (firstSzx maxSize pdu.length szx) payload := by
  have hle : blockSize (firstSzx maxSize pdu.length szx) ≤ maxSize - pdu.length - 4 :=
    blockSize_firstSzx_le h
  have hmore : (0 + 1) * blockSize (firstSzx maxSize pdu.length szx) < payload.length := by omega
  refine ⟨pdu.addBlockOption type ⟨0, true, firstSzx maxSize pdu.length szx⟩, ?_, ?_⟩
  · simp only [coap_write_block_opt, Nat.zero_mul, Nat.sub_zero, Nat.zero_mod]
    rw [if_neg (by omega)]
    unfold firstSzx
    split
    · next hwant => rw [decide_eq_true (by omega)]
    · next hwant => rw [if_neg (by omega), if_neg (by omega)]
  · rw [add_block hle hdata (by omega), withBlock, decide_eq_true hmore]

theorem write_no_block (szx : Nat) (hlong : maxSize < pdu.length + payload.length)
    (hne : payload ≠ []) (h : maxSize - pdu.length - 4 < 16) (hdata : pdu.data = []) :
    coap_write_block_opt maxSize ⟨0, m, szx⟩ type pdu payload.length = (⟨0, m, szx⟩, pdu) ∧
      ∃ data, coap_add_block maxSize pdu payload 0 szx = { pdu with data := data } ∧
        data.length < payload.length := by
  have hsize := le_blockSize szx
  have hpos : 0 < payload.length := length_pos_iff.mpr hne
  constructor
  · simp only [coap_write_block_opt, Nat.zero_mul, Nat.sub_zero]
    rw [if_neg (by omega), if_neg (by omega), if_neg (by omega), if_pos h]
  · simp only [coap_add_block, Nat.zero_mul, Nat.sub_zero, drop_zero]
    rw [if_neg (by omega), coap_add_data]
    split
    · exact ⟨[], by rw [getD_none, ← hdata], hpos⟩
    · next hfit =>
      refine ⟨payload.take (min payload.length (blockSize szx)), ?_, ?_⟩
      · rw [getD_some, hdata, nil_append]
      · rw [length_take] at hfit ⊢
        omega

end

end Blocks

section Server

variable {tid : Nat} {b2 : Option Block} {g : List UInt8} {ds : DiaRequest} (maxSize : Nat)
  (a : Answer) (calls : List (Method × List UInt8)) (pending : List Nat) (method : Method)
  (options : List CoapOption) (num szx : Nat) (data : List UInt8)

/-- A block of a request that is not the last: the server gathers it and asks for the next one. -/
theorem hnd_request_more (hnone : find_tid others tid = none) (hold : Holds others tid l g)
    (hb : b2 = none ∨ g = []) :
    ∃ ds st, ds.tid = tid ∧ ds.payload = g ++ data ∧
      hnd_request maxSize a ⟨l, calls, pending⟩ method
          ⟨.request method, some tid, options, some ⟨num, true, szx⟩, b2, data⟩ =
        (⟨others ++ [ds], calls, pending⟩,
          ⟨.response st, some tid, options.filter isCopied,
            some ⟨(num + 1) % 2 ^ 20, false, szx⟩, none, []⟩) := by
  obtain ⟨htid, hg⟩ := hold.search_tid hnone
  have hA := not_early hold hnone hb
  refine ⟨{ search_tid l tid with
    early_nego := b2.isSome, block2 := b2.getD .zero, block1 := (⟨num, true, szx⟩ : Block).next,
    payload := (search_tid l tid).payload ++ data }, if method = .post then 201 else 204, htid,
    congrArg (· ++ data) hg, ?_⟩
  simp only [hnd_request, coap_get_block, hA, if_false, if_true]
  rw [hold.put hnone]
  · rfl
  · exact htid

/-- The last block of a request: the callback gets all that was gathered. -/
theorem hnd_request_last (hnone : find_tid others tid = none) (hold : Holds others tid l g)
    (hb : b2 = none ∨ g = []) :
    ∃ ds st, ds.tid = tid ∧ ds.early_nego = b2.isSome ∧ ds.block2 = b2.getD .zero ∧
      hnd_request maxSize a ⟨l, calls, pending⟩ method
          ⟨.request method, some tid, options, some ⟨num, false, szx⟩, b2, data⟩ =
        callback maxSize a ⟨others ++ [ds], calls, pending⟩ tid method (g ++ data)
          (.new (.response st)) := by
  obtain ⟨htid, hg⟩ := hold.search_tid hnone
  have hA := not_early hold hnone hb
  refine ⟨{ search_tid l tid with
    early_nego := b2.isSome, block2 := b2.getD .zero, block1 := ⟨num, false, szx⟩,
    payload := (search_tid l tid).payload ++ data }, if method = .post then 201 else 204, htid, rfl,
    rfl, ?_⟩
  simp only [hnd_request, coap_get_block, hA, Bool.false_eq_true, if_false,
    storeFragment_payload]
  rw [hold.put hnone, hg]
  · rfl
  · exact htid

/-- A request in one message. -/
theorem hnd_request_whole (b2 : Option Block) (hnone : find_tid others tid = none) :
    ∃ ds, ds.tid = tid ∧ ds.early_nego = b2.isSome ∧ ds.block2 = b2.getD .zero ∧
      hnd_request maxSize a ⟨others, calls, pending⟩ method
          ⟨.request method, some tid, options, none, b2, data⟩ =
        callback maxSize a ⟨others ++ [ds], calls, pending⟩ tid method data (.new .empty) := by
  have hA : ¬ (b2.isSome = true ∧ (search_tid others tid).payload ≠ []) := by
    rw [search_tid_of_none hnone]
    exact fun h => h.2 rfl
  have htid : (search_tid others tid).tid = tid := by
    rw [search_tid_of_none hnone]
    rfl
  have hput (dr : DiaRequest) (h : dr.tid = tid) : put others dr = others ++ [dr] :=
    put_of_none (h ▸ hnone)
  refine ⟨{ search_tid others tid with
    early_nego := b2.isSome, block2 := b2.getD .zero, block1 := .zero }, htid, rfl, rfl, ?_⟩
  simp only [hnd_request, coap_get_block, hA, if_false, getD_none]
  rw [hput]
  exact htid

theorem hnd_request_next (hnone : find_tid others tid = none) (hds : ds.tid = tid)
    (hroom : blockSize szx ≤
      maxSize - Pdu.optionsLength (some tid) (options.filter isCopied) - 4)
    (hnum : num * blockSize szx < ds.payload.length) :
    ∃ l', (((num + 1) * blockSize szx < ds.payload.length ∧
          ∃ ds', l' = others ++ [ds'] ∧ ds'.tid = tid ∧ ds'.payload = ds.payload) ∨
        (¬ (num + 1) * blockSize szx < ds.payload.length ∧ l' = others)) ∧
      hnd_request maxSize a ⟨others ++ [ds], calls, pending⟩ method
          ⟨.request method, some tid, options, none, some ⟨num, false, szx⟩, []⟩ =
        (⟨l', calls, pending⟩, withBlock
          ⟨.response 205, some tid, options.filter isCopied, none, none, []⟩ .block2 num szx
          ds.payload) := by
  have hne : ds.payload ≠ [] := length_pos_iff.mp (by omega)
  obtain ⟨pdu, hwrite, hadd⟩ := write_block
    (copy_options ⟨.request method, some tid, options, none, some ⟨num, false, szx⟩, []⟩ (.new .empty)) false
    .block2 hroom rfl hnum
  let ds' := { ds with
    early_nego := false, block2 := ⟨num, (num + 1) * blockSize szx < ds.payload.length, szx⟩ }
  refine ⟨if (num + 1) * blockSize szx < ds.payload.length then others ++ [ds'] else others, ?_, ?_⟩
  · by_cases hmore : (num + 1) * blockSize szx < ds.payload.length
    · exact .inl ⟨hmore, ds', if_pos hmore, hds, rfl⟩
    · exact .inr ⟨hmore, if_neg hmore⟩
  · simp only [hnd_request, coap_get_block, search_tid_concat hnone hds]
    rw [if_pos ⟨rfl, hne⟩]
    simp only [blockCaseA, getD_some, hwrite, hadd, decide_eq_true_eq]
    rw [put_concat, free_dr_concat hnone]
    · rfl
    · exact hds
    · exact hds ▸ hnone
    · rfl

end Server

variable {others : List DiaRequest}

section Client

variable {tid : Nat} {method : Method} {dc : DiaRequest} (maxSize : Nat)
  (calls : List (Method × List UInt8)) (status num szx : Nat) (options : List CoapOption)
  (data : List UInt8)

theorem hnd_response_silent {maxSize : Nat} {c : Client} {pdu : Pdu} (h : pdu.token = none) :
    c.hnd_response maxSize pdu = (c, none) := by
  simp only [hnd_response, h]

section

variable (hnone : find_tid others tid = none) (hdc : dc.tid = tid)
  (htype : dc.typeReq = some method)

include hnone hdc htype

theorem hnd_response_ask
    (hroom : blockSize szx ≤ maxSize - Pdu.optionsLength (some tid) (options.filter isCopied) - 4)
    (hnum : num * blockSize szx < dc.payload.length) :
    ∃ dc', dc'.tid = tid ∧ dc'.typeReq = some method ∧ dc'.payload = dc.payload ∧
      hnd_response maxSize ⟨others ++ [dc], calls⟩
          ⟨.response status, some tid, options, some ⟨num, false, szx⟩, none, []⟩ =
        (⟨others ++ [dc'], calls⟩, some (withBlock
          ⟨.request method, some tid, options.filter isCopied, none, none, []⟩ .block1 num szx
          dc.payload)) := by
  obtain ⟨pdu, hwrite, hadd⟩ := write_block
    ⟨.request method, some tid, options.filter isCopied, none, none, []⟩ false .block1 hroom rfl hnum
  refine ⟨{ dc with
    block1 := ⟨num, (num + 1) * blockSize szx < dc.payload.length, szx⟩ }, hdc, htype, rfl, ?_⟩
  simp only [hnd_response, coap_get_block, search_tid_concat hnone hdc, htype, codeOf,
    elim_some, copy_options, Pdu.new, nil_append, getD_some, hwrite, hadd]
  rw [put_concat]
  · exact hdc ▸ hnone
  · rfl

theorem hnd_response_more :
    ∃ dc', dc'.tid = tid ∧ dc'.typeReq = some method ∧ dc'.payload = dc.payload ++ data ∧
      hnd_response maxSize ⟨others ++ [dc], calls⟩
          ⟨.response status, some tid, options, none, some ⟨num, true, szx⟩, data⟩ =
        (⟨others ++ [dc'], calls⟩, some
          ⟨.request method, some tid, options.filter isCopied, none,
            some ⟨(num + 1) % 2 ^ 20, false, szx⟩, []⟩) := by
  refine ⟨{ dc with
    block1 := .zero, block2 := (⟨num, true, szx⟩ : Block).next, payload := dc.payload ++ data }, hdc,
    htype, rfl, ?_⟩
  simp only [hnd_response, coap_get_block, search_tid_concat hnone hdc, htype, codeOf,
    elim_some, if_true]
  rw [put_concat]
  · rfl
  · exact hdc ▸ hnone
  · rfl

theorem hnd_response_last :
    hnd_response maxSize ⟨others ++ [dc], calls⟩
        ⟨.response status, some tid, options, none, some ⟨num, false, szx⟩, data⟩ =
      (⟨others, calls ++ [(method, responseContent method (dc.payload ++ data))]⟩, none) := by
  simp only [hnd_response, coap_get_block, search_tid_concat hnone hdc, Bool.false_eq_true,
    if_false]
  rw [put_concat]
  · simp only [complete, storeFragment_payload, storeFragment_tid, storeFragment_typeReq,
      htype]
    rw [free_dr_concat]
    · rfl
    · exact hdc ▸ hnone
    · rfl
  · exact hdc ▸ hnone
  · rfl

theorem hnd_response_single :
    hnd_response maxSize ⟨others ++ [dc], calls⟩
        ⟨.response status, some tid, options, none, none, data⟩ =
      (⟨others, calls ++ [(method, responseContent method data)]⟩, none) := by
  simp only [hnd_response, coap_get_block, search_tid_concat hnone hdc]
  rw [put_concat]
  · simp only [complete, htype]
    rw [free_dr_concat]
    · rfl
    · exact hdc ▸ hnone
    · rfl
  · exact hdc ▸ hnone
  · rfl

end

end Client

section Answer

variable {maxSize tid szx : Nat} {a : Answer} {ds : DiaRequest} (code : Code)

/-- A response before its content. -/
def Answer.response (a : Answer) (tid : Nat) : Pdu :=
  ⟨.response a.status, some tid, a.options, none, none, []⟩

/-- A content fits in one message after `length` bytes. -/
def Fits (maxSize length : Nat) (ctt : List UInt8) : Prop := ctt = [] ∨ length + ctt.length ≤ maxSize

instance (maxSize length : Nat) (ctt : List UInt8) : Decidable (Fits maxSize length ctt) :=
  inferInstanceAs (Decidable (_ ∨ _))

theorem add_data_of_fits (pdu : Pdu) {ctt : List UInt8} (hdata : pdu.data = [])
    (h : Fits maxSize pdu.length ctt) :
    (if ctt = [] then some pdu else coap_add_data maxSize pdu ctt) = some { pdu with data := ctt } := by
  split
  · next hnil => rw [hnil, ← hdata]
  · next hne =>
    have hle : pdu.length + ctt.length ≤ maxSize := h.resolve_left hne
    rw [coap_add_data, if_neg (Nat.not_lt.mpr hle), hdata, nil_append]

theorem add_data_of_not_fits (pdu : Pdu) {ctt : List UInt8} (h : ¬ Fits maxSize pdu.length ctt) :
    (if ctt = [] then some pdu else coap_add_data maxSize pdu ctt) = none := by
  rw [Fits, not_or, Nat.not_le] at h
  rw [if_neg h.1, coap_add_data, if_pos h.2]

section

variable (hnone : find_tid others tid = none) (hds : ds.tid = tid)
include hnone hds

theorem diaResponse_sent (pdu : Pdu) :
    ∃ l response, diaResponse maxSize (others ++ [ds]) tid a pdu = (l, response, true) := by
  simp only [diaResponse, find_tid_concat hnone hds]
  split <;> exact ⟨_, _, rfl⟩

theorem diaResponse_of_fits (h : Fits maxSize (Pdu.optionsLength (some tid) a.options) a.ctt) :
    diaResponse maxSize (others ++ [ds]) tid a (.new code) =
      (others, { a.response tid with data := a.ctt }, true) := by
  have hadd := add_data_of_fits (a.response tid) rfl h
  simp only [Answer.response] at hadd
  simp only [diaResponse, find_tid_concat hnone hds, Pdu.new, hadd, free_dr_concat hnone hds,
    Answer.response]

variable (h : ¬ Fits maxSize (Pdu.optionsLength (some tid) a.options) a.ctt)
  (hnum : ds.block2.num = 0) (hszx : (if ds.early_nego then ds.block2.szx else 6) = szx)
include h hnum hszx

theorem diaResponse_of_not_fits {b : Block} {pdu : Pdu}
    (hwrite : coap_write_block_opt maxSize ⟨0, ds.block2.m, szx⟩ .block2 (a.response tid)
      a.ctt.length = (b, pdu)) :
    diaResponse maxSize (others ++ [ds]) tid a (.new code) =
      (others ++ [{ ds with block2 := b, payload := a.ctt }],
        coap_add_block maxSize pdu a.ctt b.num b.szx, true) := by
  have hadd := add_data_of_not_fits (a.response tid) h
  have hblock : (if ds.early_nego then ds.block2 else { ds.block2 with szx := 6 }) =
      ⟨0, ds.block2.m, szx⟩ := by
    rw [← hszx, ← hnum]
    split <;> rfl
  simp only [Answer.response] at hadd hwrite
  simp only [diaResponse, find_tid_concat hnone hds, Pdu.new, hadd, hblock, hwrite]
  rw [put_concat]
  · rfl
  · exact hds ▸ hnone
  · rfl

theorem diaResponse_of_room (hroom : 16 ≤ maxSize - Pdu.optionsLength (some tid) a.options - 4) :
    ∃ ds', ds'.tid = tid ∧ ds'.payload = a.ctt ∧
      diaResponse maxSize (others ++ [ds]) tid a (.new code) =
        (others ++ [ds'], withBlock (a.response tid) .block2 0
          (firstSzx maxSize (Pdu.optionsLength (some tid) a.options) szx) a.ctt, true) := by
  have hlong : maxSize < (a.response tid).length + a.ctt.length := Nat.not_le.mp (not_or.mp h).2
  obtain ⟨pdu, hwrite, hadd⟩ := write_first_block (a.response tid) ds.block2.m .block2 szx
    hlong hroom rfl
  have hsplit := diaResponse_of_not_fits code hnone hds h hnum hszx hwrite
  rw [hadd] at hsplit
  exact ⟨{ ds with
    block2 := ⟨0, true, firstSzx maxSize (a.response tid).length szx⟩, payload := a.ctt }, hds, rfl,
    hsplit⟩

theorem diaResponse_of_no_room (hroom : maxSize - Pdu.optionsLength (some tid) a.options - 4 < 16) :
    ∃ ds' data, data.length < a.ctt.length ∧
      diaResponse maxSize (others ++ [ds]) tid a (.new code) =
        (others ++ [ds'], { a.response tid with data := data }, true) := by
  have hlong : maxSize < (a.response tid).length + a.ctt.length := Nat.not_le.mp (not_or.mp h).2
  obtain ⟨hwrite, data, hadd, hlen⟩ := write_no_block (a.response tid) ds.block2.m .block2
    szx hlong (not_or.mp h).1 hroom rfl
  have hsplit := diaResponse_of_not_fits code hnone hds h hnum hszx hwrite
  rw [hadd] at hsplit
  exact ⟨{ ds with block2 := ⟨0, ds.block2.m, szx⟩, payload := a.ctt }, data, hlen, hsplit⟩

end

end Answer

section Request

variable {maxSize tid : Nat} {method : Method} {options : List CoapOption} {proposal : Option Nat}
  {ctt : List UInt8}

/-- A request before its content. -/
def requestPdu (tid : Nat) (method : Method) (options : List CoapOption) (proposal : Option Nat) :
    Pdu :=
  ⟨.request method, some tid, options, none, proposal.map fun szx => ⟨0, false, szx⟩, []⟩

variable (hnone : find_tid others tid = none)
include hnone

theorem diaRequest_of_fits (h : Fits maxSize (requestPdu tid method options proposal).length ctt) :
    ∃ dc, dc.tid = tid ∧ dc.typeReq = some method ∧ dc.payload = [] ∧
      diaRequest maxSize others tid method options proposal ctt =
        (others ++ [dc], { requestPdu tid method options proposal with data := ctt }) := by
  have hadd := add_data_of_fits (requestPdu tid method options proposal) rfl h
  simp only [requestPdu] at hadd
  refine ⟨{ alloc_dr tid with typeReq := some method }, rfl, rfl, rfl, ?_⟩
  simp only [diaRequest, search_tid_of_none hnone, hadd, requestPdu]
  rw [put_of_none hnone]

variable (h : ¬ Fits maxSize (requestPdu tid method options proposal).length ctt)
include h

theorem diaRequest_of_not_fits {b : Block} {pdu : Pdu}
    (hwrite : coap_write_block_opt maxSize ⟨0, false, 6⟩ .block1
      (requestPdu tid method options proposal) ctt.length = (b, pdu)) :
    diaRequest maxSize others tid method options proposal ctt =
      (others ++ [⟨ctt, .zero, b, tid, some method, false⟩],
        coap_add_block maxSize pdu ctt b.num b.szx) := by
  have hadd := add_data_of_not_fits (requestPdu tid method options proposal) h
  simp only [requestPdu] at hadd hwrite
  simp only [diaRequest, search_tid_of_none hnone, hadd, alloc_dr, Block.zero, hwrite,
    DiaRequest.alloc_payload]
  rw [put_of_none hnone]

theorem diaRequest_of_room
    (hroom : 16 ≤ maxSize - (requestPdu tid method options proposal).length - 4) :
    ∃ dc, dc.tid = tid ∧ dc.typeReq = some method ∧ dc.payload = ctt ∧
      diaRequest maxSize others tid method options proposal ctt =
        (others ++ [dc], withBlock (requestPdu tid method options proposal) .block1 0
          (firstSzx maxSize (requestPdu tid method options proposal).length 6) ctt) := by
  have hlong : maxSize < (requestPdu tid method options proposal).length + ctt.length :=
    Nat.not_le.mp (not_or.mp h).2
  obtain ⟨pdu, hwrite, hadd⟩ := write_first_block (requestPdu tid method options proposal) false
    .block1 6 hlong hroom rfl
  exact ⟨_, rfl, rfl, rfl, (diaRequest_of_not_fits hnone h hwrite).trans (by rw [hadd])⟩

theorem diaRequest_of_no_room
    (hroom : maxSize - (requestPdu tid method options proposal).length - 4 < 16) :
    ∃ dc data, dc.tid = tid ∧ data.length < ctt.length ∧
      diaRequest maxSize others tid method options proposal ctt =
        (others ++ [dc], { requestPdu tid method options proposal with data := data }) := by
  have hlong : maxSize < (requestPdu tid method options proposal).length + ctt.length :=
    Nat.not_le.mp (not_or.mp h).2
  obtain ⟨hwrite, data, hadd, hlen⟩ := write_no_block (requestPdu tid method options proposal) false
    .block1 6 hlong (not_or.mp h).1 hroom rfl
  exact ⟨_, data, rfl, hlen, (diaRequest_of_not_fits hnone h hwrite).trans (by rw [hadd])⟩

end Request

end Ong.Dia
