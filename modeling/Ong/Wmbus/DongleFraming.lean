import Mathlib.Data.List.TakeWhile
import Ong.Wmbus.Dongle

/-!
# The framing of the wM-Bus dongle

A stream of data frames, each preceded by noise without `0xFF`, is cut into reads in any way.  As
long as the loop that looks for a frame does not slip, what is left in the buffer and still to be
read is the rest of the stream, and one further call is enough for each frame.  When it slips a
`0xFF` is lost, and the frames delivered afterwards cannot make up for it.

## Main results

* `View.Synced.poll`: a call that does not slip stays in the stream
* `credit_poll_le`, `credit_poll_lt`: no call gains a frame start, and a slip loses one
* `framing_iff`: the frames are delivered exactly when the loop never slips
-/

namespace Ong.Wmbus

open Dongle Window List

/-- The exclusive or of the bytes. -/
def checksum (l : List UInt8) : UInt8 := l.foldl (· ^^^ ·) 0

/-- The data frame of a payload. -/
def frame (payload : List UInt8) : List UInt8 :=
  let body := 0xFF :: 0x03 :: UInt8.ofNat payload.length :: payload
  body ++ [checksum body]

/-- The stream of the frames of the items, each behind its noise, and some noise at the end. -/
def wire (items : List (List UInt8 × List UInt8)) (tail : List UInt8) : List UInt8 :=
  (items.map fun item => item.1 ++ frame item.2).flatten ++ tail

/-- The noise holds no frame start, and the payloads fit the length byte. -/
def WellFormed (items : List (List UInt8 × List UInt8)) (tail : List UInt8) : Prop :=
  (∀ item ∈ items, 0xFF ∉ item.1 ∧ item.2.length < 256) ∧ 0xFF ∉ tail

section Frames

variable {payload l l₁ l₂ : List UInt8} {n p : List UInt8} {c : UInt8}
  {items : List (List UInt8 × List UInt8)} {tail : List UInt8}

theorem checksum_append_singleton (l : List UInt8) (c : UInt8) :
    checksum (l ++ [c]) = checksum l ^^^ c := by
  simp [checksum]

theorem checksum_frame (payload : List UInt8) : checksum (frame payload) = 0 := by
  rw [frame, checksum_append_singleton, UInt8.xor_self]

@[simp] theorem length_frame (payload : List UInt8) :
    (frame payload).length = 3 + payload.length + 1 := by
  simp [frame]
  omega

theorem frame_eq_cons (payload : List UInt8) : ∃ l, frame payload = 0xFF :: l := ⟨_, rfl⟩

theorem wire_cons : wire ((n, p) :: items) tail = n ++ (frame p ++ wire items tail) := by
  simp [wire]

theorem count_wire (h : WellFormed items tail) :
    (wire items tail).count 0xFF =
      ((items.map Prod.snd).map fun p => (frame p).count 0xFF).sum := by
  obtain ⟨hitems, htail⟩ := h
  induction items with
  | nil => simpa [wire] using count_eq_zero.mpr htail
  | cons item items ih =>
    obtain ⟨n, p⟩ := item
    have hn : n.count 0xFF = 0 := count_eq_zero.mpr (hitems _ mem_cons_self).1
    have ih := ih fun item hi => hitems item (mem_cons_of_mem _ hi)
    rw [wire_cons, count_append, count_append, hn, ih]
    simp

end Frames

/-- What of a dongle may depend on the received bytes: not the cells behind them. -/
structure View where
  bytes : List UInt8
  dongleState : DongleState
  netid : Option (List UInt8)
  processed : List (List UInt8)

namespace Dongle

/-- The dongle without the cells behind the received bytes. -/
def view (d : Dongle) : View := ⟨d.bytes, d.dongleState, d.netid, d.processed⟩

variable {d : Dongle} {line : SerialLine} {data rest p : List UInt8} {n : Nat}

theorem view_dropFront (h : n ≤ d.len) :
    (d.dropFront n).view = { d.view with bytes := d.bytes.drop n } := by
  rw [← bytes_dropFront h]
  rfl

theorem resyncPass_eq (d : Dongle) : ∃ buffer len, d.resyncPass = { d with buffer, len } := by
  unfold resyncPass
  cases d.nextStart with
  | none =>
    by_cases h : max 1 d.len = d.len
    · exact ⟨d.buffer, 0, if_pos h⟩
    · exact ⟨d.buffer, d.len, if_neg h⟩
  | some i =>
    by_cases h : i = (d.dropFront i).len
    · exact ⟨_, 0, if_pos h⟩
    · exact ⟨_, _, if_neg h⟩

theorem resync_eq (d : Dongle) : ∃ buffer len, d.resync = { d with buffer, len } := by
  induction d using resync.induct with
  | case1 d h => exact ⟨d.buffer, d.len, by rw [resync, if_pos h]⟩
  | case2 d h hlen ih =>
    obtain ⟨buffer, len, hpass⟩ := resyncPass_eq d
    obtain ⟨buffer', len', hres⟩ := ih
    refine ⟨buffer', len', ?_⟩
    rw [resync, if_neg h, dif_pos hlen, hres, hpass]
  | case3 d h hlen =>
    obtain ⟨buffer, len, hpass⟩ := resyncPass_eq d
    exact ⟨buffer, len, by rw [resync, if_neg h, dif_neg hlen, hpass]⟩

theorem view_resync (d : Dongle) :
    d.resync.view =
      { d.view with bytes := if Slip d.bytes then [] else fromStart d.bytes } := by
  obtain ⟨buffer, len, h⟩ := resync_eq d
  rw [← bytes_resync, h]
  rfl

theorem verifyChecksum_eq (h : n ≤ d.len) :
    verifyChecksum d.buffer n = checksum (d.bytes.take n) := by
  rw [verifyChecksum, foldl_contents, bytes, take_contents h]
  rfl

theorem handleFrame_wait (h : d.bytes ++ data = frame p ++ rest) (hp : p.length < 256)
    (hlen : d.len < (frame p).length) : d.handleFrame line = d := by
  unfold handleFrame
  split
  · rename_i h3
    have hb : d.buffer 2 = UInt8.ofNat p.length := by
      have hget := congrArg (·[2]?) h
      rw [getElem?_append_left (by rw [length_bytes]; omega),
        getElem?_append_left (by rw [length_frame]; omega), bytes,
        getElem?_contents (by omega)] at hget
      exact Option.some.inj hget
    have hsize : (UInt8.ofNat p.length).toNat = p.length := by
      simpa using Nat.mod_eq_of_lt hp
    rw [length_frame] at hlen
    rw [if_neg]
    rw [hb, hsize]
    omega
  · rfl

/-- **A whole frame is delivered** and shifted out. -/
theorem handleFrame_frame (h : d.bytes = frame p ++ rest) (hp : p.length < 256)
    (hready : d.dongleState = .ready) :
    (d.handleFrame line).view =
      { d.view with bytes := rest, processed := d.processed ++ [p] } := by
  have hlen : d.len = (3 + p.length + 1) + rest.length := by
    rw [← length_bytes, h, length_append, length_frame]
  have hcell : ∀ k < 3, d.bytes[k]? = some (d.buffer k) := fun k hk =>
    getElem?_contents (by omega)
  have hb1 : d.buffer 1 = 0x03 := by
    have := hcell 1 (by omega)
    rw [h] at this
    exact (Option.some.inj this).symm
  have hb2 : d.buffer 2 = UInt8.ofNat p.length := by
    have := hcell 2 (by omega)
    rw [h] at this
    exact (Option.some.inj this).symm
  have hsize : (d.buffer 2).toNat = p.length := by
    rw [hb2]
    simpa using Nat.mod_eq_of_lt hp
  have hcs : verifyChecksum d.buffer (3 + p.length + 1) = 0 := by
    rw [verifyChecksum_eq (by omega), h, take_left' (length_frame p), checksum_frame]
  have hpayload : (contents d.buffer (3 + p.length)).drop 3 = p := by
    rw [← @take_contents _ d.buffer d.len _ (by omega)]
    have hbytes : contents d.buffer d.len = d.bytes := rfl
    rw [hbytes, h, frame, append_assoc, take_left' (by simp; omega)]
    rfl
  unfold handleFrame
  rw [if_pos (by omega)]
  simp only [hsize]
  rw [if_pos (by omega), if_pos hcs]
  simp only [handleCommand, hb1, hready, hsize, hpayload, if_true, ne_eq, not_true_eq_false,
    if_false]
  rw [view_dropFront (by simp only; omega)]
  have hdrop : d.bytes.drop (3 + p.length + 1) = rest := by
    rw [h, drop_left' (length_frame p)]
  rw [← hdrop]
  simp [view, hready, bytes]

end Dongle

variable {all : List (List UInt8)}

section Synced

variable {v : View} {unread data l : List UInt8} {line : SerialLine}
  {items : List (List UInt8 × List UInt8)} {tail : List UInt8} {n p rest : List UInt8}

/-- The bytes in the buffer and those still to be read are the rest of the stream: the frames of
the items, whose payloads complete what has been delivered to `all`. -/
structure View.SyncedWith (v : View) (all : List (List UInt8)) (unread : List UInt8)
    (items : List (List UInt8 × List UInt8)) (tail : List UInt8) : Prop where
  ready : v.dongleState = .ready
  wellFormed : WellFormed items tail
  rest : v.bytes ++ unread = wire items tail
  complete : v.processed ++ items.map Prod.snd = all

def View.Synced (v : View) (all : List (List UInt8)) (unread : List UInt8) : Prop :=
  ∃ items tail, v.SyncedWith all unread items tail

/-- What one call makes of the received bytes when it stays in the stream. -/
def View.Polls (v v' : View) (line : SerialLine) (data : List UInt8) : Prop :=
  ∀ d : Dongle, d.view = v → (wmbusDongleRequestPollCb line d data).view = v'

theorem not_slip_split {l : List UInt8} (hn : 0xFF ∉ n) (hl : ∃ t, l = 0xFF :: t)
    (h : ¬Slip (n ++ l)) : (if Slip (n ++ l) then [] else fromStart (n ++ l)) = l := by
  obtain ⟨t, rfl⟩ := hl
  rw [if_neg h, fromStart_append hn]

theorem View.polls_noise (h : 0xFF ∉ v.bytes ++ data) :
    v.Polls { v with bytes := [] } line data := by
  rintro d rfl
  have hres : ((d.read data).resync).view = { d.view with bytes := [] } := by
    have hbytes : (d.read data).bytes = d.view.bytes ++ data := bytes_read
    rw [Dongle.view_resync, hbytes, if_neg (not_slip_of_notMem h), fromStart_of_notMem h]
    rfl
  have hlen : ((d.read data).resync).len = 0 := by
    have := congrArg (length ∘ View.bytes) hres
    simpa [Dongle.view] using this
  rw [wmbusDongleRequestPollCb, Dongle.handleFrame, if_neg (by omega), hres]

theorem View.resync_start (hn : 0xFF ∉ n) (hv : v.bytes ++ data = n ++ l) (hl : ∃ t, l = 0xFF :: t)
    (hslip : ¬Slip (v.bytes ++ data)) {d : Dongle} (hd : d.view = v) :
    ((d.read data).resync).view = { v with bytes := l } := by
  subst hd
  have hbytes : (d.read data).bytes = d.view.bytes ++ data := bytes_read
  rw [Dongle.view_resync, hbytes, hv, not_slip_split hn hl (hv ▸ hslip)]
  rfl

theorem View.polls_whole (hn : 0xFF ∉ n) (hv : v.bytes ++ data = n ++ (frame p ++ rest))
    (hslip : ¬Slip (v.bytes ++ data)) (hp : p.length < 256) (hready : v.dongleState = .ready) :
    v.Polls { v with bytes := rest, processed := v.processed ++ [p] } line data := by
  intro d hd
  obtain ⟨t, ht⟩ := frame_eq_cons p
  have hres := View.resync_start hn hv ⟨t ++ rest, by rw [ht]; rfl⟩ hslip hd
  rw [wmbusDongleRequestPollCb, Dongle.handleFrame_frame (congrArg View.bytes hres) hp
    ((congrArg View.dongleState hres).trans hready), hres]
  have hproc : ((d.read data).resync).processed = v.processed := congrArg View.processed hres
  rw [hproc]

theorem View.polls_part (hn : 0xFF ∉ n) (hv : v.bytes ++ data = n ++ l) (hl : ∃ t, l = 0xFF :: t)
    (hslip : ¬Slip (v.bytes ++ data)) (hp : p.length < 256) (hpart : l ++ unread = frame p ++ rest)
    (hlen : l.length < (frame p).length) : v.Polls { v with bytes := l } line data := by
  intro d hd
  have hres := View.resync_start hn hv hl hslip hd
  have hbytes : ((d.read data).resync).bytes = l := congrArg View.bytes hres
  have hlen : ((d.read data).resync).len < (frame p).length := by
    rwa [← Dongle.length_bytes, hbytes]
  rw [wmbusDongleRequestPollCb, Dongle.handleFrame_wait (hbytes.symm ▸ hpart) hp hlen, hres]

/-- **The step lemma**: a call that does not slip stays in the stream, and what it makes of the
dongle does not depend on the cells behind the received bytes. -/
theorem View.SyncedWith.poll (h : v.SyncedWith all (data ++ unread) items tail)
    (hslip : ¬Slip (v.bytes ++ data)) :
    ∃ v', v.Polls v' line data ∧ v'.Synced all unread := by
  obtain ⟨hready, ⟨hitems, htail⟩, hrest, hall⟩ := h
  rw [← append_assoc] at hrest
  cases items with
  | nil =>
    have hmem : 0xFF ∉ (v.bytes ++ data) ++ unread := by
      rw [hrest]
      simpa [wire] using htail
    rw [mem_append, not_or] at hmem
    exact ⟨_, View.polls_noise hmem.1, [], unread, hready,
      ⟨fun _ hi => absurd hi not_mem_nil, hmem.2⟩, by simp [wire], hall⟩
  | cons item items =>
    obtain ⟨n, p⟩ := item
    obtain ⟨hn, hp⟩ := hitems _ mem_cons_self
    have hitems' : ∀ item ∈ items, 0xFF ∉ item.1 ∧ item.2.length < 256 :=
      fun item hi => hitems item (mem_cons_of_mem _ hi)
    rw [wire_cons] at hrest
    rcases append_eq_append_iff.mp hrest with ⟨m, rfl, hm⟩ | ⟨l, hl, hunread⟩
    · rw [mem_append, not_or] at hn
      refine ⟨_, View.polls_noise hn.1, (m, p) :: items, tail, hready, ⟨?_, htail⟩, ?_, hall⟩
      · intro item hi
        rcases mem_cons.mp hi with rfl | hi
        · exact ⟨hn.2, hp⟩
        · exact hitems' item hi
      · rw [wire_cons, ← hm]
        rfl
    · rcases eq_or_ne l [] with rfl | hne
      · rw [append_nil] at hl
        refine ⟨_, View.polls_noise (hl ▸ hn), ([], p) :: items, tail, hready, ⟨?_, htail⟩, ?_,
          hall⟩
        · intro item hi
          rcases mem_cons.mp hi with rfl | hi
          · exact ⟨not_mem_nil, hp⟩
          · exact hitems' item hi
        · rw [wire_cons]
          exact hunread.symm
      · have hstart : ∃ t, l = 0xFF :: t := by
          obtain ⟨b, t, rfl⟩ := exists_cons_of_ne_nil hne
          obtain ⟨f, hf⟩ := frame_eq_cons p
          rw [hf] at hunread
          exact ⟨t, congrArg (· :: t) (cons.inj hunread).1.symm⟩
        rcases append_eq_append_iff.mp hunread with ⟨rest, rfl, hrest⟩ | ⟨m, hm, rfl⟩
        · exact ⟨_, View.polls_whole hn hl hslip hp hready, items, tail, hready, ⟨hitems', htail⟩,
            hrest.symm, by simpa using hall⟩
        · rcases eq_or_ne m [] with rfl | hm'
          · have hl : v.bytes ++ data = n ++ (frame p ++ []) := by
              rw [hl, hm, append_nil, append_nil]
            exact ⟨_, View.polls_whole hn hl hslip hp hready, items, tail, hready,
              ⟨hitems', htail⟩, rfl, by simpa using hall⟩
          · have hlt : l.length < (frame p).length := by
              rw [hm, length_append]
              have := length_pos_iff.mpr hm'
              omega
            refine ⟨_, View.polls_part hn hl hstart hslip hp hunread.symm hlt,
              ([], p) :: items, tail, hready, ⟨?_, htail⟩, ?_, hall⟩
            · intro item hi
              rcases mem_cons.mp hi with rfl | hi
              · exact ⟨not_mem_nil, hp⟩
              · exact hitems' item hi
            · rw [wire_cons]
              exact hunread.symm

theorem View.SyncedWith.poll_nil (h : v.SyncedWith all [] ((n, p) :: items) tail)
    (hslip : ¬Slip v.bytes) :
    v.Polls { v with bytes := wire items tail, processed := v.processed ++ [p] } line [] ∧
      View.SyncedWith { v with bytes := wire items tail, processed := v.processed ++ [p] } all []
        items tail := by
  obtain ⟨hready, ⟨hitems, htail⟩, hrest, hall⟩ := h
  obtain ⟨hn, hp⟩ := hitems _ mem_cons_self
  rw [append_nil, wire_cons] at hrest
  refine ⟨View.polls_whole hn (by rw [append_nil, hrest]) (by rwa [append_nil]) hp
    hready, hready,
    ⟨fun item hi => hitems item (mem_cons_of_mem _ hi), htail⟩, append_nil _, ?_⟩
  simpa using hall

theorem View.SyncedWith.poll_last (h : v.SyncedWith all [] [] tail) :
    v.Polls { v with bytes := [] } line [] ∧
      View.SyncedWith { v with bytes := [] } all [] [] [] := by
  obtain ⟨hready, ⟨hitems, htail⟩, hrest, hall⟩ := h
  refine ⟨View.polls_noise (by rw [hrest]; simpa [wire] using htail), hready,
    ⟨hitems, not_mem_nil⟩, rfl, hall⟩

end Synced

section Credit

variable {d t : Dongle} {line : SerialLine} {data : List UInt8} {n : Nat}

/-- The frame starts in the buffer and in the frames that have been delivered. -/
def Dongle.credit (d : Dongle) : Nat :=
  d.bytes.count 0xFF + (d.processed.map fun p => (frame p).count 0xFF).sum

theorem credit_read : (d.read data).credit = d.credit + data.count 0xFF := by
  have hproc : (d.read data).processed = d.processed := rfl
  rw [credit, credit, bytes_read, count_append, hproc]
  omega

theorem count_fromStart (l : List UInt8) : (fromStart l).count 0xFF = l.count 0xFF := by
  conv_rhs => rw [← noise_append_fromStart l, count_append]
  have hnoise : (noise l).count 0xFF = 0 := by
    rw [count_eq_zero]
    intro hmem
    have := mem_takeWhile_imp hmem
    simp at this
  omega

theorem count_pos_of_slip {l : List UInt8} (h : Slip l) : 0 < l.count 0xFF := by
  rw [count_pos_iff]
  by_contra hmem
  exact not_slip_of_notMem hmem h

theorem credit_resync (d : Dongle) :
    d.resync.credit ≤ d.credit ∧ (Slip d.bytes → d.resync.credit < d.credit) := by
  have hview := Dongle.view_resync d
  have hproc : d.resync.processed = d.processed := congrArg View.processed hview
  have hbytes : d.resync.bytes = _ := congrArg View.bytes hview
  rw [credit, credit, hproc, hbytes]
  by_cases h : Slip d.bytes
  · have := count_pos_of_slip h
    simp only [if_pos h, count_nil]
    omega
  · rw [if_neg h, count_fromStart]
    exact ⟨Nat.le_refl _, fun hslip => absurd hslip h⟩

theorem take_eq_frame (h0 : d.buffer 0 = 0xFF) (h1 : d.buffer 1 = 0x03)
    (hlen : 3 + (d.buffer 2).toNat + 1 ≤ d.len)
    (hcs : verifyChecksum d.buffer (3 + (d.buffer 2).toNat + 1) = 0) :
    d.bytes.take (3 + (d.buffer 2).toNat + 1) =
      frame ((contents d.buffer (3 + (d.buffer 2).toNat)).drop 3) := by
  generalize hL : (d.buffer 2).toNat = L at *
  set payload := (contents d.buffer (3 + L)).drop 3 with hpayload
  have hplen : payload.length = L := by simp [hpayload]
  have hbody : contents d.buffer (3 + L) =
      0xFF :: 0x03 :: UInt8.ofNat payload.length :: payload := by
    have hhead : (contents d.buffer (3 + L)).take 3 = [0xFF, 0x03, UInt8.ofNat L] := by
      rw [take_contents (by omega), ← h0, ← h1, ← hL, UInt8.ofNat_toNat]
      rfl
    rw [← take_append_drop 3 (contents d.buffer (3 + L)), hhead, ← hpayload, hplen]
    rfl
  have hsucc : contents d.buffer (3 + L + 1) =
      contents d.buffer (3 + L) ++ [d.buffer (3 + L)] := by
    simp [contents, range_succ]
  rw [Dongle.verifyChecksum_eq hlen, Dongle.bytes, take_contents hlen, hsucc,
    checksum_append_singleton, UInt8.xor_eq_zero_iff] at hcs
  rw [Dongle.bytes, take_contents hlen, hsucc, ← hcs, hbody]
  rfl

theorem handleCommand_eq (d : Dongle) (line : SerialLine) :
    (d.buffer 1 = 0x03 ∧ d.handleCommand line =
      ({ d with processed := d.processed ++
        [(contents d.buffer (3 + (d.buffer 2).toNat)).drop 3] }, true)) ∨
    ∃ dongleState netid shifted,
      d.handleCommand line = ({ d with dongleState, netid }, shifted) := by
  unfold Dongle.handleCommand
  split
  · rename_i h1
    split
    · exact Or.inr ⟨d.dongleState, d.netid, true, rfl⟩
    · exact Or.inl ⟨h1, rfl⟩
  · right
    split
    · split
      · exact ⟨d.dongleState, d.netid, false, rfl⟩
      · split
        · split
          · exact ⟨_, d.netid, _, rfl⟩
          · exact ⟨_, d.netid, _, rfl⟩
        · split
          · exact ⟨_, d.netid, _, rfl⟩
          · exact ⟨d.dongleState, d.netid, true, rfl⟩
    · split
      · exact ⟨_, _, _, rfl⟩
      · exact ⟨_, d.netid, _, rfl⟩

theorem credit_dropFront_le (h : n ≤ d.len) : (d.dropFront n).credit ≤ d.credit := by
  have hproc : (d.dropFront n).processed = d.processed := rfl
  rw [credit, credit, hproc, Dongle.bytes_dropFront h]
  have := (drop_sublist n d.bytes).count_le 0xFF
  omega

theorem credit_handleFrame (h : 0 < d.len → d.buffer 0 = 0xFF) :
    (d.handleFrame line).credit ≤ d.credit := by
  unfold Dongle.handleFrame
  split
  · rename_i h3
    dsimp only
    split
    · rename_i hlen
      split
      · rename_i hcs
        rcases handleCommand_eq d line with ⟨h1, heq⟩ | ⟨dongleState, netid, shifted, heq⟩
        · have hframe := take_eq_frame (h (by omega)) h1 hlen hcs
          set payload := (contents d.buffer (3 + (d.buffer 2).toNat)).drop 3
          have hbytes := take_append_drop (3 + (d.buffer 2).toNat + 1) d.bytes
          rw [hframe] at hbytes
          have hcount := congrArg (count 0xFF) hbytes
          rw [count_append] at hcount
          have hdrop := @Dongle.bytes_dropFront { d with processed := d.processed ++ [payload] }
            (3 + (d.buffer 2).toNat + 1) hlen
          rw [heq]
          simp only [if_true, credit]
          rw [hdrop]
          have hproc : (dropFront { d with processed := d.processed ++ [payload] }
            (3 + (d.buffer 2).toNat + 1)).processed = d.processed ++ [payload] := rfl
          rw [hproc, map_append, sum_append]
          have hsame : Dongle.bytes { d with processed := d.processed ++ [payload] } = d.bytes :=
            rfl
          rw [hsame]
          simp only [map_cons, map_nil, sum_cons, sum_nil]
          omega
        · rw [heq]
          split
          · exact @credit_dropFront_le { d with dongleState, netid } _ hlen
          · exact Nat.le_refl _
      · exact credit_dropFront_le (by omega)
    · exact Nat.le_refl _
  · exact Nat.le_refl _

theorem buffer_resync (d : Dongle) (h : 0 < d.resync.len) : d.resync.buffer 0 = 0xFF := by
  have hbytes := Dongle.bytes_resync d
  rw [bytes_eq_cons h] at hbytes
  split at hbytes
  · cases hbytes
  · have hne : fromStart d.bytes ≠ [] := by rw [← hbytes]; exact cons_ne_nil _ _
    have hhead := head_dropWhile_not (· != (0xFF : UInt8)) hne
    simp only [fromStart] at hbytes
    simp only [← hbytes, head_cons, bne_eq_false_iff_eq] at hhead
    exact hhead

/-- **No call gains a frame start**, and one whose loop slips loses one. -/
theorem credit_poll (d : Dongle) (data : List UInt8) :
    (wmbusDongleRequestPollCb line d data).credit ≤ d.credit + data.count 0xFF ∧
    (Slip (d.bytes ++ data) →
      (wmbusDongleRequestPollCb line d data).credit < d.credit + data.count 0xFF) := by
  have hframe := @credit_handleFrame ((d.read data).resync) line (buffer_resync _)
  obtain ⟨hle, hlt⟩ := credit_resync (d.read data)
  rw [credit_read] at hle hlt
  rw [bytes_read] at hlt
  rw [wmbusDongleRequestPollCb]
  exact ⟨by omega, fun h => by have := hlt h; omega⟩

end Credit

section Runs

variable {line : SerialLine} {d d' t : Dongle} {data : List UInt8} {chunks : List (List UInt8)}
  {items : List (List UInt8 × List UInt8)} {tail : List UInt8}

/-- The loop does not slip at the call: what is left in the buffer and what is read do not consist
of some bytes of noise and as many bytes from a frame start on. -/
def NoSlip (d : Dongle) (data : List UInt8) : Prop := ¬Slip (d.bytes ++ data)

instance (d : Dongle) (data : List UInt8) : Decidable (NoSlip d data) :=
  inferInstanceAs (Decidable (¬_))

/-- What a call makes of the dongle does not depend on the cells behind the received bytes. -/
def SeesOnlyReceived (line : SerialLine) (d : Dongle) (data : List UInt8) : Prop :=
  ∀ d', d'.view = d.view → (step line d' data).map Dongle.view = (step line d data).map Dongle.view

/-- The stream `wire items tail`, read in the pieces `chunks`, is framed: the received bytes never
exceed the buffer, no cell behind them has an influence, and once the calls with nothing to read are
enough, each payload has been processed once, in order, and the buffer is empty. -/
def Framed (line : SerialLine) (d : Dongle) (items : List (List UInt8 × List UInt8))
    (chunks : List (List UInt8)) : Prop :=
  (∀ n, Run.Visits (step line) (fun t => t.len ≤ rxBufferSize) d (chunks ++ List.replicate n [])) ∧
  (∀ n, Run.Along (step line) (SeesOnlyReceived line) d (chunks ++ List.replicate n [])) ∧
  ∃ N, ∀ n ≥ N, ∃ t, Run.exec (step line) d (chunks ++ List.replicate n []) = some t ∧
    t.processed = items.map Prod.snd ∧ t.len = 0

theorem step_eq_some (h : step line d data = some t) :
    d.dongleState ≠ .notConnected ∧ data.length ≤ rxBufferSize - d.len ∧
      t = wmbusDongleRequestPollCb line d data := by
  unfold step at h
  split at h
  · rename_i hg
    exact ⟨hg.1, hg.2, (Option.some.inj h).symm⟩
  · cases h

theorem len_eq_of_view (h : d'.view = d.view) : d'.len = d.len := by
  simpa [Dongle.view] using congrArg (length ∘ View.bytes) h

theorem SeesOnlyReceived.of_polls {v' : View} (h : d.view.Polls v' line data) :
    SeesOnlyReceived line d data := by
  intro d' hview
  have hstate : d'.dongleState = d.dongleState := congrArg View.dongleState hview
  unfold step
  rw [hstate, len_eq_of_view hview]
  split
  · rw [Option.map_some, Option.map_some, h d' hview, h d rfl]
  · rfl

/-- **A run that never slips** stays in the stream. -/
theorem synced_run (h : d.view.Synced all chunks.flatten)
    (hslip : Run.Along (step line) NoSlip d chunks) :
    Run.Along (step line) (SeesOnlyReceived line) d chunks ∧
      ∀ t, Run.exec (step line) d chunks = some t → t.view.Synced all [] := by
  induction chunks generalizing d with
  | nil =>
    refine ⟨trivial, fun t ht => ?_⟩
    cases ht
    exact h
  | cons data chunks ih =>
    obtain ⟨items, tail, hsync⟩ := h
    have hnext : ∀ t, step line d data = some t →
        SeesOnlyReceived line d data ∧ t.view.Synced all chunks.flatten := by
      intro t ht
      have hpoll : ∃ v', d.view.Polls v' line data ∧ v'.Synced all chunks.flatten :=
        hsync.poll (hslip t ht).1
      obtain ⟨v', hpolls, hsync'⟩ := hpoll
      obtain ⟨-, -, rfl⟩ := step_eq_some ht
      exact ⟨.of_polls hpolls, (hpolls d rfl).symm ▸ hsync'⟩
    constructor
    · intro t ht
      obtain ⟨hhidden, hsync'⟩ := hnext t ht
      exact ⟨hhidden, (ih hsync' (hslip t ht).2).1⟩
    · intro t ht
      obtain ⟨u, hu, ht⟩ := Option.bind_eq_some_iff.mp ht
      exact (ih (hnext u hu).2 (hslip u hu).2).2 t ht

/-- **Progress**: with everything read, one call for each frame left, and one more, deliver them
all and empty the buffer. -/
theorem drained {n : Nat} (h : d.view.SyncedWith all [] items tail) (hn : items.length < n)
    (hslip : Run.Along (step line) NoSlip d (replicate n [])) :
    ∃ t, Run.exec (step line) d (replicate n []) = some t ∧ t.processed = all ∧
      t.len = 0 := by
  induction n generalizing d items tail with
  | zero => exact absurd hn (Nat.not_lt_zero _)
  | succ n ih =>
    have hstep : step line d [] = some (wmbusDongleRequestPollCb line d []) := by
      have hready : d.dongleState = .ready := h.ready
      rw [step, if_pos ⟨by rw [hready]; exact DongleState.noConfusion, Nat.zero_le _⟩]
    obtain ⟨hnow, hslip'⟩ := hslip _ hstep
    rw [NoSlip, append_nil] at hnow
    rw [replicate_succ, Run.exec_cons, hstep, Option.bind_some]
    cases items with
    | nil =>
      have hpolls : d.view.Polls _ line [] := h.poll_last.1
      have hsync := (@View.SyncedWith.poll_last _ _ line _ h).2
      rw [← hpolls d rfl] at hsync
      rcases Nat.eq_zero_or_pos n with rfl | hpos
      · refine ⟨_, rfl, ?_, ?_⟩
        · simpa [Dongle.view] using hsync.complete
        · have hbytes : (wmbusDongleRequestPollCb line d []).bytes = [] :=
            congrArg View.bytes (hpolls d rfl)
          rw [← Dongle.length_bytes, hbytes, length_nil]
      · exact ih hsync hpos hslip'
    | cons item items =>
      have hpolls : d.view.Polls _ line [] := (h.poll_nil hnow).1
      have hsync := (@View.SyncedWith.poll_nil _ _ line _ _ _ _ h hnow).2
      rw [← hpolls d rfl] at hsync
      exact ih hsync (by simpa using hn) hslip'

/-- **The account of a run**: it gains no frame start, and only a run that never slips keeps
them all. -/
theorem credit_run (h : Run.exec (step line) d chunks = some t) :
    t.credit ≤ d.credit + chunks.flatten.count 0xFF ∧
      (d.credit + chunks.flatten.count 0xFF ≤ t.credit →
        Run.Along (step line) NoSlip d chunks) := by
  induction chunks generalizing d with
  | nil =>
    cases h
    exact ⟨Nat.le_refl _, fun _ => trivial⟩
  | cons data chunks ih =>
    obtain ⟨u, hu, ht⟩ := Option.bind_eq_some_iff.mp h
    obtain ⟨hle, halong⟩ := ih ht
    obtain ⟨-, -, rfl⟩ := step_eq_some hu
    obtain ⟨hpoll, hlost⟩ := @credit_poll line d data
    rw [flatten_cons, count_append]
    refine ⟨by omega, fun hall s hs => ?_⟩
    obtain rfl := Option.some.inj (hu.symm.trans hs)
    refine ⟨fun hslip => ?_, halong (by omega)⟩
    have := hlost hslip
    omega

theorem len_resync_le (d : Dongle) : d.resync.len ≤ d.len := by
  rw [← Dongle.length_bytes, ← Dongle.length_bytes, Dongle.bytes_resync]
  split
  · exact Nat.zero_le _
  · conv_rhs => rw [← noise_append_fromStart d.bytes, length_append]
    omega

theorem len_handleFrame_le (d : Dongle) : (d.handleFrame line).len ≤ d.len := by
  unfold Dongle.handleFrame
  split
  · dsimp only
    split
    · split
      · rcases handleCommand_eq d line with ⟨-, heq⟩ | ⟨dongleState, netid, shifted, heq⟩
        · rw [heq]
          exact Nat.sub_le _ _
        · rw [heq]
          split
          · exact Nat.sub_le _ _
          · exact Nat.le_refl _
      · exact Nat.sub_le _ _
    · exact Nat.le_refl _
  · exact Nat.le_refl _

theorem visits_len_le (h : d.len ≤ rxBufferSize) :
    Run.Visits (step line) (fun t => t.len ≤ rxBufferSize) d chunks := by
  refine Run.visits_of_along (C := fun _ _ => True) ?_ h (Run.along_of_forall fun _ _ => trivial)
  intro d data t hlen _ hstep
  obtain ⟨-, hfits, rfl⟩ := step_eq_some hstep
  have hframe := @len_handleFrame_le line ((d.read data).resync)
  have hres := len_resync_le (d.read data)
  have hread : (d.read data).len = d.len + data.length := rfl
  rw [wmbusDongleRequestPollCb]
  show _ ≤ rxBufferSize
  omega

theorem flatten_append_nils (chunks : List (List UInt8)) (n : Nat) :
    (chunks ++ replicate n []).flatten = chunks.flatten := by
  simp

theorem along_of_framed (hw : WellFormed items tail) (hlen : d.len = 0) (hnone : d.processed = [])
    (hchunks : chunks.flatten = wire items tail) (h : Framed line d items chunks) (n : Nat) :
    Run.Along (step line) NoSlip d (chunks ++ replicate n []) := by
  obtain ⟨-, -, N, hdone⟩ := h
  obtain ⟨t, ht, hproc, -⟩ := hdone (n + N) (by omega)
  have hstart : d.credit = 0 := by
    rw [credit, Dongle.bytes, hlen, hnone]
    rfl
  have hend : (wire items tail).count 0xFF ≤ t.credit := by
    rw [count_wire hw, credit, hproc]
    omega
  have halong := (credit_run ht).2 (by rw [flatten_append_nils, hchunks, hstart]; omega)
  rw [replicate_add, ← append_assoc] at halong
  exact Run.along_append_left halong

/-- **wM-Bus framing**: for every stream of data frames among noise, cut in any way, read by a
dongle that is ready and holds nothing, the stream is framed exactly when at no call, of those that
read it and of those with nothing more to read, the loop that looks for a frame slips. -/
theorem framing_iff (line : SerialLine) (items : List (List UInt8 × List UInt8))
    (tail : List UInt8) (hw : WellFormed items tail) (d : Dongle)
    (hready : d.dongleState = .ready) (hlen : d.len = 0) (hnone : d.processed = [])
    (chunks : List (List UInt8)) (hchunks : chunks.flatten = wire items tail)
    (hrun : (Run.exec (step line) d chunks).isSome) :
    Framed line d items chunks ↔
      ∀ n, Run.Along (step line) NoSlip d (chunks ++ replicate n []) := by
  refine ⟨along_of_framed hw hlen hnone hchunks, fun hslip => ?_⟩
  have hsync : d.view.Synced (items.map Prod.snd) (wire items tail) := by
    refine ⟨items, tail, hready, hw, ?_, ?_⟩
    · rw [Dongle.view, Dongle.bytes, hlen]
      rfl
    · rw [Dongle.view, hnone]
      rfl
  refine ⟨fun n => visits_len_le (by rw [hlen]; exact Nat.zero_le _), fun n => ?_, ?_⟩
  · rw [← hchunks, ← flatten_append_nils chunks n] at hsync
    exact (synced_run hsync (hslip n)).1
  · obtain ⟨t, ht⟩ := Option.isSome_iff_exists.mp hrun
    rw [← hchunks] at hsync
    obtain ⟨left, tail', hleft⟩ := (synced_run hsync (Run.along_append_left (hslip 0))).2 t ht
    refine ⟨left.length + 1, fun n hn => ?_⟩
    rw [Run.exec_append ht]
    exact drained hleft hn (Run.along_append_right (hslip n) ht)

/-- A ready dongle that has received nothing. -/
def idleDongle : Dongle := ⟨fun _ => 0, 0, .ready, none, []⟩

/-- A serial line that takes every write. -/
def openLine : SerialLine := ⟨"S1", fun _ => true⟩

/-- Two frames, the first one behind a byte of noise, in three reads that cut both of them. -/
theorem framing_twoFrames :
    Framed openLine idleDongle [([0x00], [0x44]), ([], [0x08, 0x72])]
        [0x00 :: (frame [0x44]).take 3, (frame [0x44]).drop 3 ++ (frame [0x08, 0x72]).take 2,
          (frame [0x08, 0x72]).drop 2] ↔
      ∀ n, Run.Along (step openLine) NoSlip idleDongle
        ([0x00 :: (frame [0x44]).take 3, (frame [0x44]).drop 3 ++ (frame [0x08, 0x72]).take 2,
          (frame [0x08, 0x72]).drop 2] ++ replicate n []) :=
  framing_iff openLine [([0x00], [0x44]), ([], [0x08, 0x72])] [] ⟨by decide, by decide⟩ idleDongle
    rfl rfl rfl _ rfl (by decide +kernel)

/-- The first frame, cut after its first byte: the read holds one byte of noise and one of the
frame, and the loop drops both. -/
theorem not_framed_cut :
    ¬Framed openLine idleDongle [([0x00], [0x44])] [[0x00, 0xFF], (frame [0x44]).drop 1] := by
  intro h
  have hw : WellFormed [([0x00], [0x44])] [] := ⟨by decide, by decide⟩
  have halong := along_of_framed hw rfl rfl rfl h 0
  exact absurd (halong _ rfl).1 (by decide)

end Runs

end Ong.Wmbus
