import Mathlib.Algebra.GroupWithZero.Nat
import Ong.Lib.Run
import Ong.Lib.Window

/-!
# The poll callback of the wM-Bus dongle

The dongle sends frames `0xFF <cmd> <len> <payload> <xor>` over a serial line.  The callback appends
what it reads to one buffer, skips what does not start with `0xFF`, and handles at most one complete
frame.

## Main results

* `bytes_resync`: what the loop leaves of the received bytes
* `bytes_read`, `bytes_dropFront`: the received bytes after a read and after a shift
-/

namespace Ong.Wmbus

open List

/-- `WMBUS_RX_BUFFER_SIZE` -/
def rxBufferSize : Nat := 512

inductive DongleState
  | notConnected
  | configuringFormat
  | configuringId
  | configuringMode
  | ready
  deriving DecidableEq

/-- The receive context, the state of the dongle and its variable `w_netid`; and, for the observer,
the payloads `wmbusProcessor` was called with, in order. -/
structure Dongle where
  buffer : Nat → UInt8
  len : Nat
  dongleState : DongleState
  netid : Option (List UInt8)
  processed : List (List UInt8)

/-- What the callback finds outside: the mode `w_mode` asks for, and whether a write to the serial
line takes all its bytes. -/
structure SerialLine where
  wMode : String
  write : List UInt8 → Bool

def verifyChecksum (buffer : Nat → UInt8) (size : Nat) : UInt8 :=
  (List.range size).foldl (fun cs i => cs ^^^ buffer i) 0

def cmdRequestID : List UInt8 := [0xff, 0x0b, 0x00, 0xf4]

/-- The wireless modes `buildPresetCommand` knows. -/
def presetMode : String → Option UInt8
  | "S1" => some 0x01
  | "S1-m" => some 0x02
  | "S2" => some 0x03
  | "T1-meter" => some 0x05
  | "T1-other" => some 0x06
  | "T2-meter" => some 0x07
  | "T2-other" => some 0x08
  | "R2-meter" => some 0x0A
  | "R2-other" => some 0x0B
  | _ => none

/-- `buildPresetCommand`: the command, or nothing for an unknown mode. -/
def buildPresetCommand (sMode : String) : Option (List UInt8) :=
  (presetMode sMode).map fun mode =>
    let cmd := [0xff, 0x09, 0x03, 0x46, 0x01, mode]
    cmd ++ [cmd.foldl (· ^^^ ·) 0]

namespace Dongle

/-- The bytes received and not yet consumed. -/
def bytes (d : Dongle) : List UInt8 := Window.contents d.buffer d.len

/-- The bytes a read obtained, stored behind those already there. -/
def read (d : Dongle) (data : List UInt8) : Dongle :=
  { d with buffer := Window.write d.buffer d.len data, len := d.len + data.length }

/-- The first `i` bytes shifted out. -/
def dropFront (d : Dongle) (i : Nat) : Dongle :=
  { d with buffer := Window.shift d.buffer i (d.len - i), len := d.len - i }

/-- The index, from 1 on, of the first byte that starts a frame. -/
def nextStart (d : Dongle) : Option Nat :=
  (List.range' 1 (d.len - 1)).find? fun i => d.buffer i == 0xFF

/-- One pass of the loop on a buffer that does not start with `0xFF`. -/
def resyncPass (d : Dongle) : Dongle :=
  match d.nextStart with
  | some i =>
    let d := d.dropFront i
    -- the test for "nothing found" comes after the length has changed
    if i = d.len then { d with len := 0 } else d
  | none => if max 1 d.len = d.len then { d with len := 0 } else d

theorem nextStart_bounds {d : Dongle} {i : Nat} (h : d.nextStart = some i) :
    1 ≤ i ∧ i < d.len := by
  have hmem := mem_range'_1.mp (mem_of_find?_eq_some h)
  omega

theorem len_resyncPass_lt {d : Dongle} (h : 0 < d.resyncPass.len) : d.resyncPass.len < d.len := by
  unfold resyncPass at h ⊢
  cases hi : d.nextStart with
  | some i =>
    have := nextStart_bounds hi
    simp only [hi] at h ⊢
    split at h
    · simp at h
    · rename_i hne
      rw [if_neg hne]
      simp only [dropFront]
      omega
  | none =>
    simp only [hi] at h ⊢
    split at h
    · simp at h
    · omega

/-- The loop that looks for the start of a frame. -/
def resync (d : Dongle) : Dongle :=
  if d.buffer 0 = 0xFF then d
  else if _h : 0 < d.resyncPass.len then d.resyncPass.resync else d.resyncPass
termination_by d.len
decreasing_by exact len_resyncPass_lt _h

/-- `wmbusDongleError`, which stops the dongle: its descriptor is no longer polled. -/
def stop (d : Dongle) : Dongle := { d with dongleState := .notConnected }

/-- The dispatch of a frame whose checksum is right; the second component says whether the frame is
shifted out afterwards, `false` where the callback returns an error. -/
def handleCommand (d : Dongle) (line : SerialLine) : Dongle × Bool :=
  if d.buffer 1 = 0x03 then
    if d.dongleState ≠ .ready then (d, true)
    else
      let payload := (Window.contents d.buffer (3 + (d.buffer 2).toNat)).drop 3
      ({ d with processed := d.processed ++ [payload] }, true)
  else if d.buffer 1 = 0x89 then
    if d.buffer 3 ≠ 0 then (d, false)
    else if d.dongleState = .configuringFormat then
      let d := { d with dongleState := .configuringMode }
      match buildPresetCommand line.wMode with
      | none => (d, false)
      | some cmd => (d, line.write cmd)
    else if d.dongleState = .configuringMode then
      ({ d with dongleState := .configuringId }, line.write cmdRequestID)
    else (d, true)
  else if d.buffer 1 = 0x8B then
    -- the serial number takes four bytes, whatever the length of the frame
    ({ d with
      netid := some [d.buffer 3, d.buffer 4, d.buffer 5, d.buffer 6]
      dongleState := .ready }, true)
  else (d.stop, false)

/-- The handling of at most one frame at the start of the buffer. -/
def handleFrame (d : Dongle) (line : SerialLine) : Dongle :=
  if 3 < d.len then
    let frameSize := 3 + (d.buffer 2).toNat + 1
    if frameSize ≤ d.len then
      if verifyChecksum d.buffer frameSize = 0 then
        let (d, shifted) := d.handleCommand line
        if shifted then d.dropFront frameSize else d
      else d.dropFront 1
    else d
  else d

end Dongle

section Noise

variable {l l₁ l₂ : List UInt8}

/-- The bytes before the first one that can start a frame. -/
def noise (l : List UInt8) : List UInt8 := l.takeWhile (· != 0xFF)

/-- The bytes from the first one that can start a frame on. -/
def fromStart (l : List UInt8) : List UInt8 := l.dropWhile (· != 0xFF)

/-- The slip of the loop: as many bytes precede the start of a frame as come from it on. -/
def Slip (l : List UInt8) : Prop := noise l ≠ [] ∧ (noise l).length = (fromStart l).length

instance (l : List UInt8) : Decidable (Slip l) := inferInstanceAs (Decidable (_ ∧ _))

theorem noise_append_fromStart (l : List UInt8) : noise l ++ fromStart l = l :=
  takeWhile_append_dropWhile

theorem noise_append (h₁ : 0xFF ∉ l₁) : noise (l₁ ++ 0xFF :: l₂) = l₁ := by
  have hp : ∀ b ∈ l₁, (b != (0xFF : UInt8)) = true := fun b hb => by
    rw [bne_iff_ne]
    rintro rfl
    exact h₁ hb
  rw [noise, takeWhile_append_of_pos hp, takeWhile_cons_of_neg (by simp),
    append_nil]

theorem fromStart_append (h₁ : 0xFF ∉ l₁) : fromStart (l₁ ++ 0xFF :: l₂) = 0xFF :: l₂ := by
  have h := noise_append_fromStart (l₁ ++ 0xFF :: l₂)
  rw [noise_append h₁] at h
  exact append_cancel_left h

theorem fromStart_cons (l : List UInt8) : fromStart (0xFF :: l) = 0xFF :: l :=
  @fromStart_append [] l not_mem_nil

theorem not_slip_cons (l : List UInt8) : ¬Slip (0xFF :: l) := fun h =>
  h.1 (@noise_append [] l not_mem_nil)

theorem fromStart_of_notMem (h : 0xFF ∉ l) : fromStart l = [] := by
  have hp : ∀ b ∈ l, (b != (0xFF : UInt8)) = true := fun b hb => by
    rw [bne_iff_ne]
    rintro rfl
    exact h hb
  rw [fromStart, ← append_nil l, dropWhile_append_of_pos hp, dropWhile_nil]

theorem not_slip_of_notMem (h : 0xFF ∉ l) : ¬Slip l := by
  rintro ⟨hne, hlen⟩
  rw [fromStart_of_notMem h] at hlen
  exact hne (eq_nil_of_length_eq_zero hlen)

end Noise

namespace Dongle

variable {d : Dongle} {line : SerialLine} {data : List UInt8} {i : Nat}

@[simp] theorem length_bytes : d.bytes.length = d.len := Window.length_contents

theorem getElem_bytes (h : i < d.bytes.length) : d.bytes[i] = d.buffer i := by
  simp [bytes, Window.contents]

/-- What is read comes behind the bytes of the buffer. -/
@[simp] theorem bytes_read : (d.read data).bytes = d.bytes ++ data := Window.contents_write data

theorem bytes_dropFront (h : i ≤ d.len) : (d.dropFront i).bytes = d.bytes.drop i := by
  have hshift := @Window.contents_shift _ d.buffer i (d.len - i)
  rwa [show i + (d.len - i) = d.len by omega] at hshift

theorem bytes_eq_cons (h : 0 < d.len) : d.bytes = d.buffer 0 :: d.bytes.drop 1 := by
  have hlen : 0 < d.bytes.length := by rwa [length_bytes]
  rw [← getElem_bytes hlen, getElem_cons_drop, drop_zero]

theorem nextStart_eq_some (h : d.nextStart = some i) (h0 : d.buffer 0 ≠ 0xFF) :
    0xFF ∉ d.bytes.take i ∧ ∃ l, d.bytes.drop i = 0xFF :: l := by
  obtain ⟨h1, hlt⟩ := nextStart_bounds h
  obtain ⟨hi, -, hbefore⟩ := find?_range'_eq_some.mp h
  constructor
  · intro hmem
    obtain ⟨k, hk, hget⟩ := mem_iff_getElem.mp hmem
    have hki : k < i := by
      rw [length_take] at hk
      omega
    have hbuf : d.buffer k = 0xFF := by
      rwa [getElem_take, getElem_bytes] at hget
    rcases Nat.eq_zero_or_pos k with rfl | hpos
    · exact h0 hbuf
    · have := hbefore k hpos hki
      simp [hbuf] at this
  · have hlen : i < d.bytes.length := by rwa [length_bytes]
    refine ⟨d.bytes.drop (i + 1), ?_⟩
    rw [drop_eq_getElem_cons hlen]
    congr 1
    rw [getElem_bytes hlen]
    exact beq_iff_eq.mp hi

theorem nextStart_eq_none (h : d.nextStart = none) (h0 : d.buffer 0 ≠ 0xFF) : 0xFF ∉ d.bytes := by
  intro hmem
  obtain ⟨k, hk, hget⟩ := mem_iff_getElem.mp hmem
  have hbuf : d.buffer k = 0xFF := by rwa [getElem_bytes] at hget
  rw [length_bytes] at hk
  rcases Nat.eq_zero_or_pos k with rfl | hpos
  · exact h0 hbuf
  · have := find?_range'_eq_none.mp h k hpos (by omega)
    simp [hbuf] at this

/-- **The loop, on the bytes**: what does not start with `0xFF` is dropped up to the first `0xFF`,
and everything when the loop slips. -/
theorem bytes_resync (d : Dongle) :
    d.resync.bytes = if Slip d.bytes then [] else fromStart d.bytes := by
  rw [resync]
  by_cases h0 : d.buffer 0 = 0xFF
  · rw [if_pos h0]
    rcases Nat.eq_zero_or_pos d.len with hlen | hlen
    · simp [bytes, hlen, Slip, noise, fromStart]
    · rw [bytes_eq_cons hlen, h0, if_neg (not_slip_cons _), fromStart_cons]
  · rw [if_neg h0]
    cases hi : d.nextStart with
    | none =>
      have hmem := nextStart_eq_none hi h0
      have hlen : d.resyncPass.len = 0 := by
        simp only [resyncPass, hi]
        split
        · rfl
        · omega
      rw [dif_neg (by omega), if_neg (not_slip_of_notMem hmem), fromStart_of_notMem hmem]
      exact eq_nil_of_length_eq_zero (by rw [length_bytes, hlen])
    | some i =>
      obtain ⟨hpos, hlt⟩ := nextStart_bounds hi
      obtain ⟨hnoise, l, hl⟩ := nextStart_eq_some hi h0
      have hsplit : d.bytes = d.bytes.take i ++ 0xFF :: l := by rw [← hl, take_append_drop]
      have hslip : Slip d.bytes ↔ i = d.len - i := by
        have hi : (d.bytes.take i).length = i := by
          rw [length_take, length_bytes]
          omega
        have hl : (0xFF :: l).length = d.len - i := by
          rw [← hl, length_drop, length_bytes]
        rw [Slip, hsplit, noise_append hnoise, fromStart_append hnoise, hi, hl]
        refine and_iff_right fun hnil => ?_
        rw [hnil, length_nil] at hi
        omega
      by_cases heq : i = d.len - i
      · have hlen : d.resyncPass.len = 0 := by
          simp only [resyncPass, hi]
          rw [if_pos (show i = (d.dropFront i).len from heq)]
        rw [dif_neg (by omega), if_pos (hslip.mpr heq)]
        exact eq_nil_of_length_eq_zero (by rw [length_bytes, hlen])
      · have hpass : d.resyncPass = d.dropFront i := by
          simp only [resyncPass, hi]
          rw [if_neg (show ¬i = (d.dropFront i).len from heq)]
        have hbytes : (d.dropFront i).bytes = 0xFF :: l := by
          rw [bytes_dropFront (by omega), hl]
        have hlen : 0 < (d.dropFront i).len := by
          simp only [dropFront]
          omega
        have hhead : (d.dropFront i).buffer 0 = 0xFF := by
          have hcons := bytes_eq_cons hlen
          rw [hbytes] at hcons
          exact (cons.inj hcons).1.symm
        rw [hpass, dif_pos hlen, resync, if_pos hhead, if_neg (mt hslip.mp heq), hbytes]
        conv_rhs => rw [hsplit, fromStart_append hnoise]

end Dongle

/-- `wmbusDongleRequestPollCb` on readable data, with the bytes the read returns. -/
def wmbusDongleRequestPollCb (line : SerialLine) (d : Dongle) (data : List UInt8) : Dongle :=
  ((d.read data).resync).handleFrame line

/-- The poll loop: the callback is called as long as the dongle is connected, and a read takes no
more than the free part of the buffer. -/
def step (line : SerialLine) (d : Dongle) (data : List UInt8) : Option Dongle :=
  if d.dongleState ≠ .notConnected ∧ data.length ≤ rxBufferSize - d.len then
    some (wmbusDongleRequestPollCb line d data)
  else none

end Ong.Wmbus
