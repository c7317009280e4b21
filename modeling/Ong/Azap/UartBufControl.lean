import Ong.Lib.Ring

/-!
# The buffers of the serial line

A circular buffer of bytes, and the parser of the ZNP messages that it receives.

## Main results

* `Content.put`, `Content.get`: a copy transfers all its bytes or none, first in first out
* `Content.getNextZNPMsg`: the parser, on the bytes of the buffer
-/

namespace Ong.Azap

open Ong.Ring List

def mtUartSof : UInt8 := 0xFE

def maxZnpPayloadSize : Nat := 255

inductive ZnpMsgState
  | waitingSop | waitingLen | waitingCmd0 | waitingCmd1 | waitingDataAndFcs
  deriving DecidableEq

/-- The message that is being parsed. -/
structure ZnpPending where
  statePending : ZnpMsgState := .waitingSop
  cmd0Pending : UInt8 := 0
  cmd1Pending : UInt8 := 0
  lenPending : UInt8 := 0
  startDate : Int := 0

structure UartBufControl where
  bufHead : Nat := 0
  bufTail : Nat := 0
  bufSize : Nat
  pBuffer : List UInt8
  pending : ZnpPending := {}

structure ZnpMsg where
  len : UInt8
  cmd0 : UInt8
  cmd1 : UInt8
  payload : List UInt8
  deriving DecidableEq

namespace UartBufControl

/-- `uartBufControl_t_create`, with one more byte than asked for. -/
def create (size : Nat) : UartBufControl where
  bufSize := (size + 1) % 65536
  pBuffer := List.replicate ((size + 1) % 65536) 0

variable (b : UartBufControl)

/-- `uartBufControl_t_getBufferedSize` -/
def getBufferedSize : Nat :=
  let res : Int := (b.bufTail : Int) - b.bufHead
  let res := if res < 0 then res + b.bufSize else res
  (res % 65536).toNat

/-- `uartBufControl_t_put` -/
def put (data : List UInt8) : Nat × UartBufControl :=
  if data ≠ [] ∧ (b.bufSize : Int) - b.getBufferedSize - 1 ≥ data.length then
    if b.bufHead > b.bufTail ∨ b.bufSize - b.bufTail ≥ data.length then
      (data.length,
        { b with
          pBuffer := splice b.pBuffer b.bufTail data
          bufTail :=
            if b.bufTail + data.length = b.bufSize then 0 else b.bufTail + data.length })
    else
      let l := b.bufSize - b.bufTail
      (data.length,
        { b with
          pBuffer := splice (splice b.pBuffer b.bufTail (data.take l)) 0 (data.drop l)
          bufTail := data.length - l })
  else (0, b)

/-- `uartBufControl_t_get`, with the bytes that it reads. -/
def get (len : Nat) : List UInt8 × UartBufControl :=
  if len ≠ 0 ∧ b.getBufferedSize ≥ len then
    if b.bufTail > b.bufHead ∨ b.bufSize - b.bufHead ≥ len then
      (slice b.pBuffer b.bufHead len,
        { b with bufHead := if b.bufHead + len = b.bufSize then 0 else b.bufHead + len })
    else
      let l := b.bufSize - b.bufHead
      (slice b.pBuffer b.bufHead l ++ slice b.pBuffer 0 (len - l), { b with bufHead := len - l })
  else ([], b)

/-- The loop of `uartBufControl_t_getNextZNPMsg`, of at most `fuel` bytes; with the message, the
byte of its FCS. -/
def parse (now : Int) : Nat → UartBufControl → Option (ZnpMsg × UInt8) × UartBufControl
  | 0, b => (none, b)
  | fuel + 1, b =>
    let bytesAvail := b.getBufferedSize
    if bytesAvail = 0 then (none, b)
    else
      match b.pending.statePending with
      | .waitingSop =>
        let (data, b) := b.get 1
        if data.head? = some mtUartSof then
          parse now fuel
            { b with pending := { b.pending with startDate := now, statePending := .waitingLen } }
        else parse now fuel b
      | .waitingLen =>
        let (data, b) := b.get 1
        parse now fuel
          { b with pending := { b.pending with
              lenPending := data.headD b.pending.lenPending, statePending := .waitingCmd0 } }
      | .waitingCmd0 =>
        let (data, b) := b.get 1
        parse now fuel
          { b with pending := { b.pending with
              cmd0Pending := data.headD b.pending.cmd0Pending, statePending := .waitingCmd1 } }
      | .waitingCmd1 =>
        let (data, b) := b.get 1
        parse now fuel
          { b with pending := { b.pending with
              cmd1Pending := data.headD b.pending.cmd1Pending
              statePending := .waitingDataAndFcs } }
      | .waitingDataAndFcs =>
        let len := b.pending.lenPending.toNat
        if bytesAvail ≥ len + 1 then
          let (payload, b) := b.get len
          if payload.length = len then
            let (data, b) := b.get 1
            match data with
            | fcs :: _ =>
              -- a wrong FCS is only traced
              (some (⟨b.pending.lenPending, b.pending.cmd0Pending, b.pending.cmd1Pending, payload⟩,
                fcs), { b with pending := { b.pending with statePending := .waitingSop } })
            | [] => (none, b)
          else (none, b)
        else (none, b)

/-- A message is given up five seconds after its first byte. -/
def isTooLong (now : Int) : Bool :=
  b.pending.statePending ≠ .waitingSop && now - b.pending.startDate ≥ 5000

/-- `uartBufControl_t_getNextZNPMsg` -/
def getNextZNPMsg (now : Int) : Option (ZnpMsg × UInt8) × UartBufControl :=
  let b :=
    if b.isTooLong now then { b with pending := { b.pending with statePending := .waitingSop } }
    else b
  parse now b.getBufferedSize b

end UartBufControl

def isFcsValid (m : ZnpMsg) (fcs : UInt8) : Bool :=
  m.payload.foldl (fun f byte => f ^^^ byte) (m.len ^^^ m.cmd0 ^^^ m.cmd1) = fcs

/-! ## Sending -/

/-- The bytes of a message, as `znpSend` builds them. -/
def frame (m : ZnpMsg) : List UInt8 :=
  let bytes := m.len :: m.cmd0 :: m.cmd1 :: m.payload
  mtUartSof :: (bytes ++ [bytes.foldl (fun fcs byte => fcs ^^^ byte) 0])

/-- The message of a command and a payload. -/
def znpMsg (cmd : UInt16) (payload : List UInt8) : ZnpMsg :=
  ⟨payload.length.toUInt8, (cmd &&& 0xFF).toUInt8, ((cmd >>> 8) &&& 0xFF).toUInt8, payload⟩

/-- `znpSend`, of a payload that has a length of one byte. -/
def znpSend (b : UartBufControl) (cmd : UInt16) (payload : List UInt8) : Bool × UartBufControl :=
  if payload.length > maxZnpPayloadSize - 5 then (false, b)
  else
    let (res, b) := b.put (frame (znpMsg cmd payload))
    (res ≠ 0, b)

/-! ## The bytes of a buffer -/

/-- A buffer holds some bytes. -/
structure Content (b : UartBufControl) (bytes : List UInt8) : Prop where
  length : b.pBuffer.length = b.bufSize
  size_lt : b.bufSize < 65536
  holds : Holds b.pBuffer b.bufHead b.bufTail bytes

section Content

variable {b : UartBufControl} {bytes : List UInt8}

theorem content_create (size : Nat) : Content (.create size) [] := by
  refine ⟨length_replicate, Nat.mod_lt _ (by decide), ?_⟩
  unfold UartBufControl.create
  dsimp only
  cases (size + 1) % 65536 with
  | zero => exact .empty rfl rfl rfl
  | succ n => exact .straight [] [] (replicate (n + 1) 0) rfl rfl rfl (cons_ne_nil _ _)

theorem Content.getBufferedSize (h : Content b bytes) : b.getBufferedSize = bytes.length := by
  have hsize := h.holds.size
  have hle := h.holds.length_le
  have hlt := h.size_lt
  rw [h.length] at hsize hle
  unfold UartBufControl.getBufferedSize
  dsimp only
  rw [← hsize]
  omega

/-- **A put** transfers all the bytes, or none. -/
theorem Content.put (h : Content b bytes) (data : List UInt8) :
    if data ≠ [] ∧ bytes.length + data.length < b.bufSize then
      (b.put data).1 = data.length ∧ Content (b.put data).2 (bytes ++ data) ∧
        (b.put data).2.pending = b.pending
    else b.put data = (0, b) := by
  unfold UartBufControl.put
  rw [h.getBufferedSize]
  have hlength := h.length
  by_cases hroom : data ≠ [] ∧ bytes.length + data.length < b.bufSize
  · rw [if_pos hroom, if_pos ⟨hroom.1, by omega⟩]
    have hcells : bytes.length + data.length < b.pBuffer.length := by
      rw [hlength]
      exact hroom.2
    by_cases hphase : b.bufHead > b.bufTail ∨ b.bufSize - b.bufTail ≥ data.length
    · rw [if_pos hphase]
      have hholds := h.holds.write hroom.1 hcells (by rwa [hlength])
      have hsplice := h.holds.length_write hcells (by rwa [hlength])
      rw [hlength] at hholds hsplice
      exact ⟨rfl, ⟨hsplice, h.size_lt, hholds⟩, rfl⟩
    · rw [if_neg hphase]
      have hholds := h.holds.writeTwice hcells (by omega) (by omega)
      have hsplice := h.holds.length_writeTwice hcells (by omega)
      rw [hlength] at hholds hsplice
      exact ⟨rfl, ⟨hsplice, h.size_lt, hholds⟩, rfl⟩
  · rw [if_neg hroom, if_neg]
    intro hroom'
    exact hroom ⟨hroom'.1, by omega⟩

/-- **A get** transfers all the bytes that it is asked for, the first ones, or none. -/
theorem Content.get (h : Content b bytes) (len : Nat) :
    if len ≠ 0 ∧ len ≤ bytes.length then
      (b.get len).1 = bytes.take len ∧ Content (b.get len).2 (bytes.drop len) ∧
        (b.get len).2.pending = b.pending
    else b.get len = ([], b) := by
  unfold UartBufControl.get
  rw [h.getBufferedSize]
  have hlength := h.length
  by_cases hlen : len ≠ 0 ∧ len ≤ bytes.length
  · rw [if_pos hlen, if_pos ⟨hlen.1, hlen.2⟩]
    by_cases hphase : b.bufTail > b.bufHead ∨ b.bufSize - b.bufHead ≥ len
    · rw [if_pos hphase]
      obtain ⟨hslice, hholds⟩ := h.holds.read (by omega) hlen.2 (by rwa [hlength])
      rw [hlength] at hholds
      exact ⟨hslice, ⟨hlength, h.size_lt, hholds⟩, rfl⟩
    · rw [if_neg hphase]
      obtain ⟨hslice, hholds⟩ := h.holds.readTwice (by omega) hlen.2 (by omega)
      rw [hlength] at hslice hholds
      exact ⟨hslice, ⟨hlength, h.size_lt, hholds⟩, rfl⟩
  · rw [if_neg hlen, if_neg fun hlen' => hlen ⟨hlen'.1, hlen'.2⟩]

theorem Content.getByte {byte : UInt8} {rest : List UInt8} (h : Content b (byte :: rest)) :
    (b.get 1).1 = [byte] ∧ Content (b.get 1).2 rest ∧ (b.get 1).2.pending = b.pending := by
  have hget := h.get 1
  rw [if_pos ⟨Nat.one_ne_zero, Nat.le_add_left 1 rest.length⟩] at hget
  exact hget

theorem Content.withPending (h : Content b bytes) (pending : ZnpPending) :
    Content { b with pending := pending } bytes := ⟨h.length, h.size_lt, h.holds⟩

end Content

/-! ## The parser, on bytes -/

/-- What the parser does of some bytes: the message with its FCS, its new state, and the bytes that
it leaves. -/
def parseBytes (now : Int) : ZnpPending → List UInt8 →
    Option (ZnpMsg × UInt8) × ZnpPending × List UInt8
  | p, [] => (none, p, [])
  | p, byte :: rest =>
    match p.statePending with
    | .waitingSop =>
      if byte = mtUartSof then
        parseBytes now { p with startDate := now, statePending := .waitingLen } rest
      else parseBytes now p rest
    | .waitingLen => parseBytes now { p with lenPending := byte, statePending := .waitingCmd0 } rest
    | .waitingCmd0 => parseBytes now { p with cmd0Pending := byte, statePending := .waitingCmd1 } rest
    | .waitingCmd1 =>
      parseBytes now { p with cmd1Pending := byte, statePending := .waitingDataAndFcs } rest
    | .waitingDataAndFcs =>
      let len := p.lenPending.toNat
      match (byte :: rest).drop len with
      | fcs :: rest' =>
        (some (⟨p.lenPending, p.cmd0Pending, p.cmd1Pending, (byte :: rest).take len⟩, fcs),
          { p with statePending := .waitingSop }, rest')
      | [] => (none, p, byte :: rest)

section Parser

variable {b : UartBufControl} {bytes : List UInt8}

theorem Content.parseData (h : Content b bytes) (hne : bytes ≠ [])
    (hstate : b.pending.statePending = .waitingDataAndFcs) (now : Int) (fuel : Nat) :
    ∃ b', b.parse now (fuel + 1) = ((parseBytes now b.pending bytes).1, b') ∧
      b'.pending = (parseBytes now b.pending bytes).2.1 ∧
      Content b' (parseBytes now b.pending bytes).2.2 := by
  obtain ⟨byte, rest, rfl⟩ := exists_cons_of_ne_nil hne
  unfold UartBufControl.parse parseBytes
  dsimp only
  rw [h.getBufferedSize, if_neg (by rw [length_cons]; omega), hstate]
  dsimp only
  generalize hbytes : byte :: rest = bytes at *
  generalize hlen : b.pending.lenPending.toNat = len
  cases hdrop : bytes.drop len with
  | nil =>
    have hle := drop_eq_nil_iff.mp hdrop
    rw [if_neg (by omega)]
    exact ⟨b, rfl, rfl, h⟩
  | cons fcs rest' =>
    have hlt : len < bytes.length := by
      by_contra hge
      rw [drop_of_length_le (by omega)] at hdrop
      cases hdrop
    rw [if_pos (by omega)]
    have hpayload : (b.get len).1 = bytes.take len ∧ Content (b.get len).2 (fcs :: rest') ∧
        (b.get len).2.pending = b.pending := by
      have hget := h.get len
      rw [hdrop] at hget
      by_cases hzero : len = 0
      · rw [if_neg fun hpos => hpos.1 hzero] at hget
        rw [hzero, drop_zero] at hdrop
        rw [hget, hzero, take_zero]
        exact ⟨rfl, hdrop ▸ h, rfl⟩
      · rw [if_pos ⟨hzero, Nat.le_of_lt hlt⟩] at hget
        exact hget
    obtain ⟨hdata, hcontent, hpending⟩ := hpayload
    have htake : (bytes.take len).length = len := by
      rw [length_take]
      omega
    obtain ⟨hfcs, hcontent', hpending'⟩ := hcontent.getByte
    rw [hdata, if_pos htake, hfcs]
    dsimp only
    rw [hpending', hpending]
    exact ⟨_, rfl, rfl, hcontent'.withPending _⟩

/-- **The loop of the parser**, on the bytes of the buffer. -/
theorem Content.parse (h : Content b bytes) (now : Int) :
    ∃ b', b.parse now bytes.length = ((parseBytes now b.pending bytes).1, b') ∧
      b'.pending = (parseBytes now b.pending bytes).2.1 ∧
      Content b' (parseBytes now b.pending bytes).2.2 := by
  induction bytes generalizing b with
  | nil => exact ⟨b, rfl, rfl, h⟩
  | cons byte rest ih =>
    by_cases hstate : b.pending.statePending = .waitingDataAndFcs
    · exact h.parseData (cons_ne_nil _ _) hstate now rest.length
    obtain ⟨hbyte, hcontent, hpending⟩ := h.getByte
    have hsize : b.getBufferedSize ≠ 0 := by
      rw [h.getBufferedSize, length_cons]
      omega
    rw [length_cons]
    unfold UartBufControl.parse parseBytes
    dsimp only
    rw [if_neg hsize]
    cases hs : b.pending.statePending with
    | waitingSop =>
      dsimp only
      rw [hbyte, hpending]
      by_cases hsof : byte = mtUartSof
      · rw [if_pos hsof, if_pos (by rw [hsof]; rfl)]
        exact ih (hcontent.withPending _)
      · rw [if_neg hsof, if_neg (fun heq => hsof (Option.some.inj heq) :
          ¬ [byte].head? = some mtUartSof), ← hpending]
        exact ih hcontent
    | waitingLen | waitingCmd0 | waitingCmd1 =>
      dsimp only
      rw [hbyte, hpending]
      exact ih (hcontent.withPending _)
    | waitingDataAndFcs => exact absurd hs hstate

/-- The state of the parser when a call begins. -/
def UartBufControl.pendingAt (b : UartBufControl) (now : Int) : ZnpPending :=
  if b.isTooLong now then { b.pending with statePending := .waitingSop } else b.pending

/-- **The next message**, from the bytes of the buffer. -/
theorem Content.getNextZNPMsg (h : Content b bytes) (now : Int) :
    ∃ b', b.getNextZNPMsg now = ((parseBytes now (b.pendingAt now) bytes).1, b') ∧
      b'.pending = (parseBytes now (b.pendingAt now) bytes).2.1 ∧
      Content b' (parseBytes now (b.pendingAt now) bytes).2.2 := by
  unfold UartBufControl.getNextZNPMsg UartBufControl.pendingAt
  dsimp only
  by_cases hlong : b.isTooLong now = true
  · rw [if_pos hlong, if_pos hlong]
    have h' := h.withPending { b.pending with statePending := .waitingSop }
    rw [h'.getBufferedSize]
    exact h'.parse now
  · rw [if_neg hlong, if_neg hlong, h.getBufferedSize]
    exact h.parse now

end Parser

end Ong.Azap
