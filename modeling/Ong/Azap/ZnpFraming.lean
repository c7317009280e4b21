import Ong.Lib.Run
import Ong.Azap.UartBufControl

/-!
# The framing of the ZNP messages

What `znpSend` puts in a buffer comes out of it in order, crosses the line in pieces of any length,
and is put in the buffer of the other side, where the parser gets the messages back.  The parser
gives a message whatever its FCS.

## Main results

* `parseBytes_frames`, `parseBytes_eq_some`: what the parser gives
* `framing_kept`: the messages returned are the messages sent
* `fcs_iff`: the messages returned have a right FCS exactly when those received have one
-/

namespace Ong.Azap

open List

/-! ## The parser, on a stream of frames -/

/-- The bytes that a state of the parser stands for. -/
def pendingBytes (p : ZnpPending) : List UInt8 :=
  match p.statePending with
  | .waitingSop => []
  | .waitingLen => [mtUartSof]
  | .waitingCmd0 => [mtUartSof, p.lenPending]
  | .waitingCmd1 => [mtUartSof, p.lenPending, p.cmd0Pending]
  | .waitingDataAndFcs => [mtUartSof, p.lenPending, p.cmd0Pending, p.cmd1Pending]

/-- The FCS of a message. -/
def fcs (m : ZnpMsg) : UInt8 :=
  m.payload.foldl (fun f byte => f ^^^ byte) (m.len ^^^ m.cmd0 ^^^ m.cmd1)

/-- The length of a message is that of its payload. -/
def ZnpMsg.Sized (m : ZnpMsg) : Prop := m.len.toNat = m.payload.length

theorem frame_eq (m : ZnpMsg) :
    frame m = mtUartSof :: m.len :: m.cmd0 :: m.cmd1 :: (m.payload ++ [fcs m]) := by
  unfold frame fcs
  dsimp only
  rw [foldl_cons, foldl_cons, foldl_cons, UInt8.zero_xor]
  rfl

/-- A frame, with an FCS that may be wrong. -/
def rawFrame (m : ZnpMsg) (f : UInt8) : List UInt8 :=
  mtUartSof :: m.len :: m.cmd0 :: m.cmd1 :: (m.payload ++ [f])

/-- The first frame of some bytes. -/
def NextFrame (bytes : List UInt8) (m : ZnpMsg) (f : UInt8) : Prop :=
  ∃ noise rest, bytes = noise ++ (rawFrame m f ++ rest) ∧ mtUartSof ∉ noise ∧ m.Sized

theorem rawFrame_fcs (m : ZnpMsg) : rawFrame m (fcs m) = frame m := (frame_eq m).symm

theorem rawFrame_length (m : ZnpMsg) (f : UInt8) :
    (rawFrame m f).length = m.payload.length + 5 := by
  unfold rawFrame
  simp

section NextFrame

variable {bytes data : List UInt8} {m : ZnpMsg} {f byte len cmd0 cmd1 : UInt8}

theorem NextFrame.lt_length (h : NextFrame bytes m f) : 4 < bytes.length := by
  obtain ⟨noise, rest, rfl, -, -⟩ := h
  rw [length_append, length_append, rawFrame_length]
  omega

theorem nextFrame_cons_of_ne (hne : byte ≠ mtUartSof) :
    NextFrame (byte :: bytes) m f ↔ NextFrame bytes m f := by
  constructor
  · rintro ⟨noise, rest, heq, hnoise, hsized⟩
    rcases noise with _ | ⟨b, noise⟩
    · exact absurd (cons.inj heq).1 hne
    · exact ⟨noise, rest, (cons.inj heq).2, fun hmem => hnoise (mem_cons_of_mem b hmem),
        hsized⟩
  · rintro ⟨noise, rest, rfl, hnoise, hsized⟩
    refine ⟨byte :: noise, rest, rfl, ?_, hsized⟩
    rw [mem_cons]
    rintro (heq | hmem)
    · exact hne heq.symm
    · exact hnoise hmem

theorem nextFrame_header :
    NextFrame (mtUartSof :: len :: cmd0 :: cmd1 :: data) m f ↔
      m.len = len ∧ m.cmd0 = cmd0 ∧ m.cmd1 = cmd1 ∧ m.Sized ∧
        ∃ rest, data = m.payload ++ f :: rest := by
  constructor
  · rintro ⟨noise, rest, heq, hnoise, hsized⟩
    rcases noise with _ | ⟨b, noise⟩
    · unfold rawFrame at heq
      simp only [nil_append, cons_append, cons.injEq, append_assoc] at heq
      obtain ⟨-, rfl, rfl, rfl, rfl⟩ := heq
      exact ⟨rfl, rfl, rfl, hsized, rest, rfl⟩
    · have hhead : mtUartSof = b := (cons.inj heq).1
      exact absurd (hhead ▸ mem_cons_self) hnoise
  · rintro ⟨rfl, rfl, rfl, hsized, rest, rfl⟩
    refine ⟨[], rest, ?_, not_mem_nil, hsized⟩
    unfold rawFrame
    simp

end NextFrame

section Parse

variable {p : ZnpPending} {bytes rem : List UInt8} {m : ZnpMsg} {f : UInt8}
  {ms : List ZnpMsg}

theorem pendingBytes_length_le (p : ZnpPending) : (pendingBytes p).length ≤ 4 := by
  unfold pendingBytes
  split <;> simp

variable (now : Int)

theorem parseBytes_data (hstate : p.statePending = .waitingDataAndFcs) (hne : bytes ≠ []) :
    (parseBytes now p bytes).1 = some (m, f) ↔ NextFrame (pendingBytes p ++ bytes) m f := by
  obtain ⟨byte, rest, rfl⟩ := exists_cons_of_ne_nil hne
  have hpending : pendingBytes p = [mtUartSof, p.lenPending, p.cmd0Pending, p.cmd1Pending] := by
    unfold pendingBytes
    rw [hstate]
  rw [hpending]
  unfold parseBytes
  rw [hstate]
  dsimp only
  generalize byte :: rest = bytes
  change _ ↔ NextFrame
    (mtUartSof :: p.lenPending :: p.cmd0Pending :: p.cmd1Pending :: bytes) m f
  rw [nextFrame_header]
  cases hdrop : bytes.drop p.lenPending.toNat with
  | nil =>
    refine ⟨fun h => (Option.some_ne_none _ h.symm).elim, ?_⟩
    rintro ⟨hlen, -, -, hsized, rest', rfl⟩
    have hle := drop_eq_nil_iff.mp hdrop
    rw [length_append, length_cons, ← hsized, hlen] at hle
    omega
  | cons f' rest' =>
    have hsplit : bytes = bytes.take p.lenPending.toNat ++ f' :: rest' := by
      rw [← hdrop, take_append_drop]
    have hlength : (bytes.take p.lenPending.toNat).length = p.lenPending.toNat := by
      rw [length_take, Nat.min_eq_left]
      by_contra hlt
      rw [drop_of_length_le (by omega)] at hdrop
      cases hdrop
    constructor
    · intro h
      obtain ⟨rfl, rfl⟩ := Prod.mk.inj (Option.some.inj h)
      exact ⟨rfl, rfl, rfl, hlength.symm, rest', hsplit⟩
    · rintro ⟨hlen, hcmd0, hcmd1, hsized, rest'', hbytes⟩
      have htake : bytes.take p.lenPending.toNat = m.payload := by
        rw [hbytes, ← hlen, hsized, take_left]
      rw [hbytes, ← hlen, hsized, drop_left] at hdrop
      obtain ⟨rfl, rfl⟩ := cons.inj hdrop
      rw [htake, ← hlen, ← hcmd0, ← hcmd1]

/-- **What the parser gives** is the first frame of the bytes. -/
theorem parseBytes_eq_some :
    (parseBytes now p bytes).1 = some (m, f) ↔ NextFrame (pendingBytes p ++ bytes) m f := by
  -- the induction is over the bytes, with those that are pending in the parser in front of them
  induction bytes generalizing p with
  | nil =>
    refine ⟨fun h => (Option.some_ne_none _ h.symm).elim, fun h => ?_⟩
    have hlt := h.lt_length
    have hle := pendingBytes_length_le p
    rw [append_nil] at hlt
    omega
  | cons byte rest ih =>
    by_cases hdata : p.statePending = .waitingDataAndFcs
    · exact parseBytes_data now hdata (cons_ne_nil byte rest)
    unfold parseBytes
    cases hstate : p.statePending with
    | waitingSop =>
      have hpending : pendingBytes p = [] := by
        unfold pendingBytes
        rw [hstate]
      rw [hpending]
      by_cases hsof : byte = mtUartSof
      · rw [if_pos hsof, ih, hsof]
        rfl
      · rw [if_neg hsof, ih, hpending, nil_append, nil_append, nextFrame_cons_of_ne hsof]
    | waitingLen | waitingCmd0 | waitingCmd1 =>
      rw [ih]
      unfold pendingBytes
      rw [hstate]
      rfl
    | waitingDataAndFcs => exact absurd hstate hdata

theorem parseBytes_suffix (p : ZnpPending) (bytes : List UInt8) :
    (parseBytes now p bytes).2.2 <:+ bytes := by
  induction bytes generalizing p with
  | nil => exact suffix_refl _
  | cons byte rest ih =>
    unfold parseBytes
    split
    · split
      · exact (ih _).trans (suffix_cons _ _)
      · exact (ih _).trans (suffix_cons _ _)
    · exact (ih _).trans (suffix_cons _ _)
    · exact (ih _).trans (suffix_cons _ _)
    · exact (ih _).trans (suffix_cons _ _)
    · dsimp only
      split
      · next f' rest' hdrop =>
        refine IsSuffix.trans ⟨[f'], ?_⟩ (drop_suffix p.lenPending.toNat (byte :: rest))
        exact hdrop.symm
      · exact suffix_refl _

/-- The bytes of what the parser gives. -/
def resultBytes : Option (ZnpMsg × UInt8) → List UInt8
  | some (m, f) => rawFrame m f
  | none => []

theorem parseBytes_split (p : ZnpPending) (bytes : List UInt8) :
    ∃ noise, mtUartSof ∉ noise ∧ pendingBytes p ++ bytes =
      noise ++ (resultBytes (parseBytes now p bytes).1 ++
        (pendingBytes (parseBytes now p bytes).2.1 ++ (parseBytes now p bytes).2.2)) := by
  induction bytes generalizing p with
  | nil => exact ⟨[], not_mem_nil, rfl⟩
  | cons byte rest ih =>
    unfold parseBytes
    cases hstate : p.statePending with
    | waitingSop =>
      have hpending : pendingBytes p = [] := by
        unfold pendingBytes
        rw [hstate]
      by_cases hsof : byte = mtUartSof
      · rw [if_pos hsof, hpending, hsof]
        exact ih { p with startDate := now, statePending := .waitingLen }
      · rw [if_neg hsof, hpending]
        obtain ⟨noise, hnoise, heq⟩ := ih p
        rw [hpending, nil_append] at heq
        refine ⟨byte :: noise, ?_, congrArg (byte :: ·) heq⟩
        rw [mem_cons]
        rintro (hbyte | hmem)
        · exact hsof hbyte.symm
        · exact hnoise hmem
    | waitingLen =>
      have hpending : pendingBytes p = [mtUartSof] := by
        unfold pendingBytes
        rw [hstate]
      rw [hpending]
      exact ih { p with lenPending := byte, statePending := .waitingCmd0 }
    | waitingCmd0 =>
      have hpending : pendingBytes p = [mtUartSof, p.lenPending] := by
        unfold pendingBytes
        rw [hstate]
      rw [hpending]
      exact ih { p with cmd0Pending := byte, statePending := .waitingCmd1 }
    | waitingCmd1 =>
      have hpending : pendingBytes p = [mtUartSof, p.lenPending, p.cmd0Pending] := by
        unfold pendingBytes
        rw [hstate]
      rw [hpending]
      exact ih { p with cmd1Pending := byte, statePending := .waitingDataAndFcs }
    | waitingDataAndFcs =>
      have hpending : pendingBytes p = [mtUartSof, p.lenPending, p.cmd0Pending, p.cmd1Pending] := by
        unfold pendingBytes
        rw [hstate]
      dsimp only
      generalize byte :: rest = bytes
      cases hdrop : bytes.drop p.lenPending.toNat with
      | nil => exact ⟨[], not_mem_nil, rfl⟩
      | cons f rest' =>
        refine ⟨[], not_mem_nil, ?_⟩
        rw [hpending]
        conv_lhs => rw [← take_append_drop p.lenPending.toNat bytes, hdrop]
        simp [resultBytes, rawFrame, pendingBytes]

/-- The bytes of some messages. -/
def stream (ms : List ZnpMsg) : List UInt8 := (ms.map frame).flatten

theorem stream_cons (m : ZnpMsg) (ms : List ZnpMsg) :
    stream (m :: ms) = frame m ++ stream ms := rfl

theorem stream_append (ms₁ ms₂ : List ZnpMsg) :
    stream (ms₁ ++ ms₂) = stream ms₁ ++ stream ms₂ := by
  unfold stream
  rw [map_append, flatten_append]

theorem noise_eq_nil {noise rest : List UInt8} (h : noise ++ rest = stream ms)
    (hnoise : mtUartSof ∉ noise) : noise = [] := by
  rcases noise with _ | ⟨b, noise⟩
  · rfl
  · rcases ms with _ | ⟨m, ms⟩
    · cases h
    · rw [stream_cons, frame_eq] at h
      have hb : b = mtUartSof := (cons.inj h).1
      exact absurd (hb ▸ mem_cons_self) hnoise

theorem rawFrame_append_inj {m m' : ZnpMsg} {f f' : UInt8} {rest rest' : List UInt8}
    (hm : m.Sized) (hm' : m'.Sized) (h : rawFrame m f ++ rest = rawFrame m' f' ++ rest') :
    m = m' ∧ f = f' ∧ rest = rest' := by
  obtain ⟨len, cmd0, cmd1, payload⟩ := m
  obtain ⟨len', cmd0', cmd1', payload'⟩ := m'
  unfold rawFrame at h
  simp only [cons_append, cons.injEq, append_assoc, true_and] at h
  obtain ⟨rfl, rfl, rfl, h⟩ := h
  have hlength : payload.length = payload'.length := hm.symm.trans hm'
  obtain ⟨rfl, hrest⟩ := append_inj h hlength
  exact ⟨rfl, cons.inj hrest⟩

/-- **The parser, on a stream**: a message is the first one of the stream; without a message no byte
is lost, and the first frame is not complete. -/
theorem parseBytes_frames (hsized : ∀ m ∈ ms, m.Sized)
    (hstream : pendingBytes p ++ bytes ++ rem = stream ms) :
    match parseBytes now p bytes with
    | (some (m, f), p', rest) =>
      ∃ ms', ms = m :: ms' ∧ f = fcs m ∧ pendingBytes p' ++ rest ++ rem = stream ms'
    | (none, p', rest) =>
      pendingBytes p' ++ rest = pendingBytes p ++ bytes ∧
        ∀ m ms', ms = m :: ms' → (pendingBytes p ++ bytes).length < (frame m).length := by
  obtain ⟨noise, hnoise, hsplit⟩ := parseBytes_split now p bytes
  have hnext : ∀ m f, (parseBytes now p bytes).1 = some (m, f) ↔
      NextFrame (pendingBytes p ++ bytes) m f := fun m f => parseBytes_eq_some now
  generalize parseBytes now p bytes = r at hsplit hnext ⊢
  obtain ⟨result, p', rest⟩ := r
  obtain rfl : noise = [] := by
    rw [hsplit, append_assoc] at hstream
    exact noise_eq_nil hstream hnoise
  rw [nil_append] at hsplit
  rcases result with _ | ⟨m, f⟩
  · refine ⟨hsplit.symm, ?_⟩
    rintro m ms' rfl
    by_contra hlength
    rw [stream_cons] at hstream
    obtain ⟨rest', hrest⟩ := prefix_of_prefix_length_le ⟨stream ms', rfl⟩
      (hstream ▸ ⟨rem, rfl⟩) (Nat.le_of_not_lt hlength)
    refine Option.some_ne_none _ ((hnext m (fcs m)).mpr ⟨[], rest', ?_, not_mem_nil,
      hsized m mem_cons_self⟩).symm
    rw [rawFrame_fcs, nil_append]
    exact hrest.symm
  · obtain ⟨-, -, -, -, hm⟩ := (hnext m f).mp rfl
    change pendingBytes p ++ bytes = rawFrame m f ++ (pendingBytes p' ++ rest) at hsplit
    rw [hsplit, append_assoc] at hstream
    rcases ms with _ | ⟨m', ms'⟩
    · cases hstream
    · rw [stream_cons, ← rawFrame_fcs] at hstream
      obtain ⟨rfl, hf, hrest⟩ := rawFrame_append_inj hm (hsized m' mem_cons_self) hstream
      exact ⟨ms', rfl, hf, hrest⟩

end Parse

/-! ## The bytes of a buffer -/

/-- The bytes of a buffer: a get of all of them. -/
def UartBufControl.bytes (b : UartBufControl) : List UInt8 := (b.get b.getBufferedSize).1

/-- A put transfers all its bytes, or none. -/
def PutAllOrNone (b : UartBufControl) (data : List UInt8) : Prop :=
  (b.put data).1 = data.length ∧ (b.put data).2.bytes = b.bytes ++ data ∨ b.put data = (0, b)

/-- A get transfers all the bytes that it is asked for, or none. -/
def GetAllOrNone (b : UartBufControl) (len : Nat) : Prop :=
  (b.get len).1.length = len ∧ b.bytes = (b.get len).1 ++ (b.get len).2.bytes ∨ b.get len = ([], b)

section Bytes

variable {b : UartBufControl} {l : List UInt8}

theorem Content.bytes (h : Content b l) : b.bytes = l := by
  unfold UartBufControl.bytes
  have hget := h.get b.getBufferedSize
  rw [h.getBufferedSize] at hget ⊢
  by_cases hne : l.length = 0
  · rw [if_neg fun hlen => hlen.1 hne] at hget
    rw [hget, eq_nil_of_length_eq_zero hne]
  · rw [if_pos ⟨hne, Nat.le_refl _⟩] at hget
    rw [hget.1, take_length]

theorem Content.putAllOrNone (h : Content b l) (data : List UInt8) : PutAllOrNone b data := by
  have hput := h.put data
  split at hput
  · obtain ⟨hres, hcontent, -⟩ := hput
    left
    rw [hcontent.bytes, h.bytes]
    exact ⟨hres, rfl⟩
  · exact .inr hput

theorem Content.getAllOrNone (h : Content b l) (len : Nat) : GetAllOrNone b len := by
  have hget := h.get len
  split at hget
  · next hlen =>
    obtain ⟨hdata, hcontent, -⟩ := hget
    left
    rw [hcontent.bytes, h.bytes, hdata, length_take, take_append_drop]
    exact ⟨Nat.min_eq_left hlen.2, rfl⟩
  · exact .inr hget

end Bytes

open Run

/-! ## A buffer that is given any bytes -/

/-- A buffer, with the messages that its parser returned and the FCS byte of each one. -/
structure Receiver where
  rx : UartBufControl
  returned : List (ZnpMsg × UInt8) := []

inductive ReceiverEvent
  | put (data : List UInt8)
  | get (len : Nat)
  | next (now : Int)

def Receiver.step (s : Receiver) : ReceiverEvent → Option Receiver
  | .put data => some { s with rx := (s.rx.put data).2 }
  | .get len => some { s with rx := (s.rx.get len).2 }
  | .next now =>
    let (res, rx) := s.rx.getNextZNPMsg now
    some ⟨rx, s.returned ++ res.toList⟩

/-- All the messages returned have a right FCS. -/
def Receiver.Valid (s : Receiver) : Prop := ∀ m f, (m, f) ∈ s.returned → isFcsValid m f = true

/-- The first frame that was received has a right FCS when the parser is called. -/
def Receiver.FrameValid (s : Receiver) : ReceiverEvent → Prop
  | .next now => ∀ m f, NextFrame (pendingBytes (s.rx.pendingAt now) ++ s.rx.bytes) m f →
      isFcsValid m f = true
  | _ => True

section Receiver

variable {s t : Receiver} {e : ReceiverEvent}

theorem Receiver.exists_content (h : ∃ l, Content s.rx l) (hstep : s.step e = some t) :
    ∃ l, Content t.rx l := by
  obtain ⟨l, h⟩ := h
  rcases e with data | len | now
  · obtain rfl := Option.some.inj hstep
    have hput := h.put data
    split at hput
    · exact ⟨_, hput.2.1⟩
    · exact ⟨l, by rw [hput]; exact h⟩
  · obtain rfl := Option.some.inj hstep
    have hget := h.get len
    split at hget
    · exact ⟨_, hget.2.1⟩
    · exact ⟨l, by rw [hget]; exact h⟩
  · obtain ⟨b', hnext, -, hcontent⟩ := h.getNextZNPMsg now
    unfold Receiver.step at hstep
    dsimp only at hstep
    rw [hnext] at hstep
    obtain rfl := Option.some.inj hstep
    exact ⟨_, hcontent⟩

theorem Receiver.returned_step (h : ∃ l, Content s.rx l) (hstep : s.step e = some t) (m : ZnpMsg)
    (f : UInt8) : (m, f) ∈ t.returned ↔ (m, f) ∈ s.returned ∨ ∃ now, e = .next now ∧
      NextFrame (pendingBytes (s.rx.pendingAt now) ++ s.rx.bytes) m f := by
  obtain ⟨l, h⟩ := h
  rcases e with data | len | now
  · obtain rfl := Option.some.inj hstep
    simp
  · obtain rfl := Option.some.inj hstep
    simp
  · obtain ⟨b', hnext, -, -⟩ := h.getNextZNPMsg now
    unfold Receiver.step at hstep
    dsimp only at hstep
    rw [hnext] at hstep
    obtain rfl := Option.some.inj hstep
    simp [h.bytes, ← parseBytes_eq_some now]

end Receiver

/-- **The messages returned have a right FCS** exactly when, at each call, the first frame that was
received has one: the parser returns it in any case. -/
theorem fcs_iff (size : Nat) (es : List ReceiverEvent) :
    Visits Receiver.step Receiver.Valid { rx := .create size } es ↔
      Along Receiver.step Receiver.FrameValid { rx := .create size } es := by
  refine visits_iff_along (I := fun s : Receiver => (∃ l, Content s.rx l) ∧ s.Valid) (fun s h => h.2) ?_ ?_
    ⟨⟨[], content_create size⟩, fun m f hmem => absurd hmem not_mem_nil⟩
  · rintro s e t ⟨hcontent, hvalid⟩ hframe hstep
    refine ⟨Receiver.exists_content hcontent hstep, fun m f hmem => ?_⟩
    rcases (Receiver.returned_step hcontent hstep m f).mp hmem with hmem | ⟨now, rfl, hnext⟩
    · exact hvalid m f hmem
    · exact hframe m f hnext
  · rintro s e t ⟨hcontent, -⟩ hstep hvalid
    rcases e with data | len | now
    · trivial
    · trivial
    · intro m f hnext
      exact hvalid m f ((Receiver.returned_step hcontent hstep m f).mpr (.inr ⟨now, rfl, hnext⟩))

/-- A frame without payload, with an FCS of 1 instead of 0. -/
theorem fcs_broken : ¬ Visits Receiver.step Receiver.Valid { rx := .create 10 }
    [.put [0xFE, 0, 0, 0, 1], .next 0] := by
  rintro ⟨-, h⟩
  have hvalid := ((h _ rfl).2 _ rfl) ⟨0, 0, 0, []⟩ 1 (by decide)
  exact absurd hvalid (by decide)

/-! ## Two buffers and the line between them -/

/-- The buffer that is sent from, the line, and the buffer that is received in. -/
structure Link where
  tx : UartBufControl
  rx : UartBufControl
  wire : List UInt8 := []
  /-- the messages accepted by `znpSend` -/
  sent : List ZnpMsg := []
  /-- the messages returned by `getNextZNPMsg` -/
  returned : List ZnpMsg := []
  /-- the bytes put in the buffers, and those got from them -/
  txIn : List UInt8 := []
  txOut : List UInt8 := []
  rxIn : List UInt8 := []
  rxOut : List UInt8 := []

inductive LinkEvent
  | send (cmd : UInt16) (payload : List UInt8)
  /-- A get on the buffer that is sent from. -/
  | transmit (len : Nat)
  /-- A put of the next bytes of the line. -/
  | receive (len : Nat)
  | next (now : Int)
  /-- A get on the buffer that is received in. -/
  | get (len : Nat)

def Link.create (txSize rxSize : Nat) : Link where
  tx := .create txSize
  rx := .create rxSize

def Link.step (s : Link) : LinkEvent → Option Link
  | .send cmd payload =>
    if payload.length ≤ 255 then
      let (res, tx) := znpSend s.tx cmd payload
      let msg := znpMsg cmd payload
      some { s with
        tx
        sent := if res then s.sent ++ [msg] else s.sent
        txIn := if res then s.txIn ++ frame msg else s.txIn }
    else none
  | .transmit len =>
    let (data, tx) := s.tx.get len
    some { s with tx, wire := s.wire ++ data, txOut := s.txOut ++ data }
  | .receive len =>
    let data := s.wire.take len
    let (res, rx) := s.rx.put data
    some { s with rx, wire := s.wire.drop res, rxIn := s.rxIn ++ data.take res }
  | .next now =>
    let (res, rx) := s.rx.getNextZNPMsg now
    let taken := s.rx.bytes.take (s.rx.bytes.length - rx.bytes.length)
    some { s with
      rx
      returned := s.returned ++ (res.map Prod.fst).toList
      rxOut := s.rxOut ++ taken }
  | .get len =>
    let (data, rx) := s.rx.get len
    some { s with rx, rxOut := s.rxOut ++ data }

/-- A buffer holds the bytes put and not yet got, in their order. -/
def Link.Fifo (s : Link) : Prop :=
  s.txIn = s.txOut ++ s.tx.bytes ∧ s.rxIn = s.rxOut ++ s.rx.bytes

/-- The copies of an event transfer all their bytes, or none. -/
def Link.AllOrNone (s : Link) : LinkEvent → Prop
  | .send cmd payload => PutAllOrNone s.tx (frame (znpMsg cmd payload))
  | .transmit len => GetAllOrNone s.tx len
  | .receive len => PutAllOrNone s.rx (s.wire.take len)
  | .next _ => True
  | .get len => GetAllOrNone s.rx len

/-- No message is given up, and nobody else takes the bytes that the parser is to read. -/
def Link.Undisturbed (s : Link) : LinkEvent → Prop
  | .next now => s.rx.isTooLong now = false
  | .get len => (s.rx.get len).1 = []
  | _ => True

instance : ∀ (s : Link) (e : LinkEvent), Decidable (s.Undisturbed e)
  | s, .next now => inferInstanceAs (Decidable (s.rx.isTooLong now = false))
  | s, .get len => inferInstanceAs (Decidable ((s.rx.get len).1 = []))
  | _, .send _ _ => .isTrue trivial
  | _, .transmit _ => .isTrue trivial
  | _, .receive _ => .isTrue trivial

/-- A call that returns no message comes before the end of the next frame. -/
def Link.Complete (s : Link) : LinkEvent → Prop
  | .next now => (s.rx.getNextZNPMsg now).1 = none → ∀ m rest, s.sent = s.returned ++ m :: rest →
      s.rxIn.length < (stream (s.returned ++ [m])).length
  | _ => True

/-- The bytes of the two buffers, and the logs. -/
structure Link.Wired (s : Link) (txBytes rxBytes : List UInt8) : Prop where
  tx : Content s.tx txBytes
  rx : Content s.rx rxBytes
  txIn : s.txIn = s.txOut ++ txBytes
  rxIn : s.rxIn = s.rxOut ++ rxBytes

/-- The bytes on their way are the frames of the messages that are not yet returned. -/
structure Link.Streaming (s : Link) (rest : List ZnpMsg) : Prop where
  sent : s.sent = s.returned ++ rest
  sized : ∀ m ∈ rest, m.Sized
  stream : pendingBytes s.rx.pending ++ s.rx.bytes ++ (s.wire ++ s.tx.bytes) = stream rest
  rxIn : s.rxIn = Azap.stream s.returned ++ (pendingBytes s.rx.pending ++ s.rx.bytes)

section Link

variable {s t : Link} {e : LinkEvent} {txBytes rxBytes : List UInt8} {rest : List ZnpMsg}

theorem Link.Wired.fifo (h : s.Wired txBytes rxBytes) : s.Fifo := by
  unfold Link.Fifo
  rw [h.tx.bytes, h.rx.bytes]
  exact ⟨h.txIn, h.rxIn⟩

theorem Link.Wired.allOrNone (h : s.Wired txBytes rxBytes) (e : LinkEvent) : s.AllOrNone e := by
  rcases e with ⟨cmd, payload⟩ | len | len | now | len
  · exact h.tx.putAllOrNone _
  · exact h.tx.getAllOrNone len
  · exact h.rx.putAllOrNone _
  · trivial
  · exact h.rx.getAllOrNone len

theorem znpMsg_sized (cmd : UInt16) {payload : List UInt8} (h : payload.length ≤ 255) :
    (znpMsg cmd payload).Sized := by
  exact Nat.mod_eq_of_lt (by omega)

section

variable {b : UartBufControl} {l : List UInt8} (h : Content b l)

include h

theorem Content.get_cases (len : Nat) :
    ∃ n b', b.get len = (l.take n, b') ∧ Content b' (l.drop n) ∧ b'.pending = b.pending := by
  have hget := h.get len
  split at hget
  · exact ⟨len, _, Prod.ext hget.1 rfl, hget.2.1, hget.2.2⟩
  · exact ⟨0, b, hget, h, rfl⟩

theorem Content.put_cases (data : List UInt8) :
    ∃ n b', b.put data = (n, b') ∧ Content b' (l ++ data.take n) ∧ b'.pending = b.pending ∧
      n ≤ data.length := by
  have hput := h.put data
  split at hput
  · refine ⟨data.length, _, Prod.ext hput.1 rfl, ?_, hput.2.2, Nat.le_refl _⟩
    rw [take_length]
    exact hput.2.1
  · refine ⟨0, b, hput, ?_, rfl, Nat.zero_le _⟩
    rw [take_zero, append_nil]
    exact h

theorem Content.znpSend_cases (cmd : UInt16) (payload : List UInt8) :
    ∃ res b', znpSend b cmd payload = (res, b') ∧
      Content b' (l ++ if res then frame (znpMsg cmd payload) else []) := by
  unfold znpSend
  split
  · refine ⟨false, b, rfl, ?_⟩
    rw [if_neg Bool.false_ne_true, append_nil]
    exact h
  · have hput := h.put (frame (znpMsg cmd payload))
    split at hput
    · refine ⟨true, _, Prod.ext ?_ rfl, hput.2.1⟩
      dsimp only
      rw [hput.1, frame_eq]
      exact decide_eq_true (Nat.succ_ne_zero _)
    · refine ⟨false, b, ?_, ?_⟩
      · rw [hput]
        rfl
      · rw [if_neg Bool.false_ne_true, append_nil]
        exact h

end

/-- **One step of the line** keeps the bytes in their order. -/
theorem Link.wired_step (h : s.Wired txBytes rxBytes) (hstep : s.step e = some t) :
    ∃ txBytes' rxBytes', t.Wired txBytes' rxBytes' := by
  obtain ⟨htx, hrx, htxIn, hrxIn⟩ := h
  rcases e with ⟨cmd, payload⟩ | len | len | now | len
  · obtain ⟨res, b', hsend, hcontent⟩ := htx.znpSend_cases cmd payload
    unfold Link.step at hstep
    dsimp only at hstep
    rw [hsend] at hstep
    split at hstep
    · obtain rfl := Option.some.inj hstep
      refine ⟨_, rxBytes, hcontent, hrx, ?_, hrxIn⟩
      rw [htxIn]
      cases res with
      | true => exact append_assoc _ _ _
      | false => exact (append_nil _ ▸ rfl)
    · cases hstep
  · obtain ⟨n, b', hget, hcontent, -⟩ := htx.get_cases len
    unfold Link.step at hstep
    dsimp only at hstep
    rw [hget] at hstep
    obtain rfl := Option.some.inj hstep
    refine ⟨_, rxBytes, hcontent, hrx, ?_, hrxIn⟩
    rw [htxIn, append_assoc, take_append_drop]
  · obtain ⟨n, b', hput, hcontent, -, -⟩ := hrx.put_cases (s.wire.take len)
    unfold Link.step at hstep
    dsimp only at hstep
    rw [hput] at hstep
    obtain rfl := Option.some.inj hstep
    refine ⟨txBytes, _, htx, hcontent, htxIn, ?_⟩
    rw [hrxIn, append_assoc]
  · obtain ⟨b', hnext, -, hcontent⟩ := hrx.getNextZNPMsg now
    unfold Link.step at hstep
    dsimp only at hstep
    rw [hnext] at hstep
    obtain rfl := Option.some.inj hstep
    refine ⟨txBytes, _, htx, hcontent, htxIn, ?_⟩
    rw [hrx.bytes, hcontent.bytes, hrxIn, append_assoc]
    congr 1
    have hsuffix := parseBytes_suffix now (s.rx.pendingAt now) rxBytes
    rw [suffix_iff_eq_append.mp hsuffix]
  · obtain ⟨n, b', hget, hcontent, -⟩ := hrx.get_cases len
    unfold Link.step at hstep
    dsimp only at hstep
    rw [hget] at hstep
    obtain rfl := Option.some.inj hstep
    refine ⟨txBytes, _, htx, hcontent, htxIn, ?_⟩
    rw [hrxIn, append_assoc, take_append_drop]

/-- **One step of the line** keeps the messages in their order. -/
theorem Link.streaming_step (hw : s.Wired txBytes rxBytes) (h : s.Streaming rest)
    (hquiet : s.Undisturbed e) (hstep : s.step e = some t) : ∃ rest', t.Streaming rest' := by
  obtain ⟨htx, hrx, -, -⟩ := hw
  obtain ⟨hsent, hsized, hstream, hrxIn⟩ := h
  rw [htx.bytes, hrx.bytes] at hstream
  rw [hrx.bytes] at hrxIn
  rcases e with ⟨cmd, payload⟩ | len | len | now | len
  · obtain ⟨res, b', hsend, hcontent⟩ := htx.znpSend_cases cmd payload
    unfold Link.step at hstep
    dsimp only at hstep
    rw [hsend] at hstep
    split at hstep
    · next hlength =>
      obtain rfl := Option.some.inj hstep
      cases res with
      | true =>
        refine ⟨rest ++ [znpMsg cmd payload], ?_, ?_, ?_, ?_⟩
        · rw [if_pos rfl, hsent, append_assoc]
        · intro m hm
          rcases mem_append.mp hm with hm | hm
          · exact hsized m hm
          · obtain rfl := mem_singleton.mp hm
            exact znpMsg_sized cmd hlength
        · dsimp only
          rw [hcontent.bytes, if_pos rfl, hrx.bytes, stream_append, ← hstream]
          simp only [append_assoc, stream, map_cons, map_nil, flatten_cons,
            flatten_nil, append_nil]
        · rw [hrx.bytes]
          exact hrxIn
      | false =>
        rw [if_neg Bool.false_ne_true, append_nil] at hcontent
        refine ⟨rest, hsent, hsized, ?_, ?_⟩
        · rw [hcontent.bytes, hrx.bytes]
          exact hstream
        · rw [hrx.bytes]
          exact hrxIn
    · cases hstep
  · obtain ⟨n, b', hget, hcontent, -⟩ := htx.get_cases len
    unfold Link.step at hstep
    dsimp only at hstep
    rw [hget] at hstep
    obtain rfl := Option.some.inj hstep
    refine ⟨rest, hsent, hsized, ?_, ?_⟩
    · dsimp only
      rw [hcontent.bytes, hrx.bytes, append_assoc s.wire, take_append_drop]
      exact hstream
    · dsimp only
      rw [hrx.bytes]
      exact hrxIn
  · obtain ⟨n, b', hput, hcontent, hpending, hle⟩ := hrx.put_cases (s.wire.take len)
    unfold Link.step at hstep
    dsimp only at hstep
    rw [hput] at hstep
    obtain rfl := Option.some.inj hstep
    refine ⟨rest, hsent, hsized, ?_, ?_⟩
    · dsimp only
      have htake : (s.wire.take len).take n = s.wire.take n := by
        rw [length_take] at hle
        rw [take_take, Nat.min_eq_left (by omega)]
      rw [hcontent.bytes, hpending, htx.bytes, htake, ← hstream]
      conv_rhs => rw [← take_append_drop n s.wire]
      simp only [append_assoc]
    · dsimp only
      rw [hcontent.bytes, hpending, hrxIn]
      simp only [append_assoc]
  · obtain ⟨b', hnext, hpending, hcontent⟩ := hrx.getNextZNPMsg now
    have hat : s.rx.pendingAt now = s.rx.pending := by
      exact if_neg (ne_true_of_eq_false hquiet)
    rw [hat] at hnext hpending hcontent
    unfold Link.step at hstep
    dsimp only at hstep
    rw [hnext] at hstep
    obtain rfl := Option.some.inj hstep
    have hframes := parseBytes_frames now hsized hstream
    generalize parseBytes now s.rx.pending rxBytes = r at hframes hpending hcontent
    obtain ⟨_ | ⟨m, f⟩, p', rest'⟩ := r
    · obtain ⟨hkept, -⟩ := hframes
      refine ⟨rest, ?_, hsized, ?_, ?_⟩
      · dsimp only [Option.map, Option.toList]
        rw [append_nil]
        exact hsent
      · dsimp only
        rw [hpending, hcontent.bytes, htx.bytes, hkept]
        exact hstream
      · dsimp only [Option.map, Option.toList]
        rw [hpending, hcontent.bytes, hkept, append_nil]
        exact hrxIn
    · obtain ⟨ms', rfl, rfl, hrest⟩ := hframes
      refine ⟨ms', ?_, fun m' hm' => hsized m' (mem_cons_of_mem m hm'), ?_, ?_⟩
      · rw [append_assoc]
        exact hsent
      · dsimp only
        rw [hpending, hcontent.bytes, htx.bytes]
        exact hrest
      · dsimp only [Option.map, Option.toList]
        rw [hpending, hcontent.bytes, hrxIn, stream_append, append_assoc]
        have hfront : pendingBytes s.rx.pending ++ rxBytes = frame m ++ (pendingBytes p' ++ rest') := by
          refine (append_left_inj (s.wire ++ txBytes)).mp ?_
          rw [hstream, stream_cons, ← hrest, append_assoc (frame m)]
        rw [hfront]
        simp only [stream, map_cons, map_nil, flatten_cons, flatten_nil,
          append_nil]
  · obtain ⟨n, b', hget, hcontent, hpending⟩ := hrx.get_cases len
    have hnone : rxBytes.take n = [] := by
      have hdata : (s.rx.get len).1 = [] := hquiet
      rw [hget] at hdata
      exact hdata
    have hall : rxBytes.drop n = rxBytes := by
      conv_rhs => rw [← take_append_drop n rxBytes, hnone, nil_append]
    rw [hall] at hcontent
    unfold Link.step at hstep
    dsimp only at hstep
    rw [hget] at hstep
    obtain rfl := Option.some.inj hstep
    refine ⟨rest, hsent, hsized, ?_, ?_⟩
    · dsimp only
      rw [hcontent.bytes, hpending, htx.bytes]
      exact hstream
    · dsimp only
      rw [hcontent.bytes, hpending]
      exact hrxIn

theorem Link.complete_of_streaming (hw : s.Wired txBytes rxBytes) (h : s.Streaming rest)
    (hquiet : s.Undisturbed e) : s.Complete e := by
  rcases e with ⟨cmd, payload⟩ | len | len | now | len
  · trivial
  · trivial
  · trivial
  · intro hnone m rest' hsent
    obtain ⟨b', hnext, -, -⟩ := hw.rx.getNextZNPMsg now
    have hat : s.rx.pendingAt now = s.rx.pending := by
      exact if_neg (ne_true_of_eq_false hquiet)
    rw [hnext, hat] at hnone
    have hstream := h.stream
    rw [hw.rx.bytes, hw.tx.bytes] at hstream
    have hframes := parseBytes_frames now h.sized hstream
    generalize parseBytes now s.rx.pending rxBytes = r at hframes hnone
    obtain ⟨result, p', left⟩ := r
    obtain rfl : result = none := hnone
    obtain rfl : rest = m :: rest' := append_cancel_left (h.sent.symm.trans hsent)
    have hlt := hframes.2 m rest' rfl
    rw [h.rxIn, hw.rx.bytes, stream_append, length_append, length_append]
    simpa [stream] using hlt
  · trivial

/-- The bytes are those of the two buffers and of the frames on their way. -/
def Link.Flowing (s : Link) : Prop :=
  ∃ txBytes rxBytes rest, s.Wired txBytes rxBytes ∧ s.Streaming rest

theorem Link.Flowing.step (h : s.Flowing) (hquiet : s.Undisturbed e) (hstep : s.step e = some t) :
    t.Flowing := by
  obtain ⟨txBytes, rxBytes, rest, hw, hs⟩ := h
  obtain ⟨txBytes', rxBytes', hw'⟩ := Link.wired_step hw hstep
  obtain ⟨rest', hs'⟩ := Link.streaming_step hw hs hquiet hstep
  exact ⟨txBytes', rxBytes', rest', hw', hs'⟩

end Link

theorem Link.wired_create (txSize rxSize : Nat) : (Link.create txSize rxSize).Wired [] [] :=
  ⟨content_create txSize, content_create rxSize, rfl, rfl⟩

theorem Link.streaming_create (txSize rxSize : Nat) : (Link.create txSize rxSize).Streaming [] := by
  refine ⟨rfl, fun m hm => absurd hm not_mem_nil, ?_, ?_⟩
  · rfl
  · rfl

/-- **The framing**: each buffer is a queue, whose copies transfer all their bytes or none, for any
capacities and any pieces.  While no message is given up and nobody else takes the bytes of the
parser, the messages returned are the messages sent, in order and each once, and a message is
returned as soon as its frame is there. -/
theorem framing_kept (txSize rxSize : Nat) (es : List LinkEvent) :
    Visits Link.step Link.Fifo (.create txSize rxSize) es ∧
      Along Link.step Link.AllOrNone (.create txSize rxSize) es ∧
      (Along Link.step Link.Undisturbed (.create txSize rxSize) es →
        Visits Link.step (fun s => s.returned <+: s.sent) (.create txSize rxSize) es ∧
          Along Link.step Link.Complete (.create txSize rxSize) es) := by
  have hcreate := Link.wired_create txSize rxSize
  have hstream := Link.streaming_create txSize rxSize
  have hany : Along Link.step (fun _ _ => True) (.create txSize rxSize) es :=
    along_of_forall fun _ _ => trivial
  refine ⟨?_, ?_, fun hquiet => ⟨?_, ?_⟩⟩
  · refine visits_mono (P := fun s => ∃ txBytes rxBytes, s.Wired txBytes rxBytes) ?_
      (visits_of_along ?_ ⟨[], [], hcreate⟩ hany)
    · rintro s ⟨txBytes, rxBytes, h⟩
      exact h.fifo
    · rintro s e t ⟨txBytes, rxBytes, h⟩ - hstep
      exact Link.wired_step h hstep
  · refine along_of_invariant (I := fun s => ∃ txBytes rxBytes, s.Wired txBytes rxBytes) ?_
      ⟨[], [], hcreate⟩ hany
    rintro s e t ⟨txBytes, rxBytes, h⟩ - hstep
    exact ⟨h.allOrNone e, Link.wired_step h hstep⟩
  · refine visits_mono (P := Link.Flowing) ?_
      (visits_of_along ?_ ⟨[], [], [], hcreate, hstream⟩ hquiet)
    · rintro s ⟨txBytes, rxBytes, rest, -, h⟩
      exact ⟨rest, h.sent.symm⟩
    · exact fun s e t h hu hstep => h.step hu hstep
  · refine along_of_invariant (I := Link.Flowing) ?_ ⟨[], [], [], hcreate, hstream⟩ hquiet
    intro s e t h hu hstep
    refine ⟨?_, h.step hu hstep⟩
    obtain ⟨txBytes, rxBytes, rest, hw, hs⟩ := h
    exact Link.complete_of_streaming hw hs hu

/-- Two messages in pieces: the payload of the first one has the byte that starts a frame, and the
second one goes around the end of both buffers. -/
def twoMessages : List LinkEvent :=
  [.send 1 [0xaa, 0xfe], .transmit 4, .receive 3, .next 0, .transmit 3, .receive 4, .next 10,
    .send 2 [0xcc], .transmit 6, .receive 2, .receive 4, .next 4999]

theorem framing_kept_pieces :
    Visits Link.step (fun s => s.returned <+: s.sent) (.create 8 7) twoMessages ∧
      Along Link.step Link.Complete (.create 8 7) twoMessages :=
  (framing_kept 8 7 _).2.2 (by decide +kernel)

/-- A get takes the first byte of a frame from the parser, which never returns the message. -/
theorem framing_broken : ¬ Along Link.step Link.Complete (.create 6 5)
    [.send 1 [], .transmit 5, .receive 5, .get 1, .next 0] := by
  intro h
  have hnext := ((h _ rfl).2 _ rfl).2 _ rfl
  have hlt := ((hnext.2 _ rfl).2 _ rfl).1 (by decide +kernel) (znpMsg 1 []) [] (by decide +kernel)
  exact absurd hlt (by decide +kernel)

end Ong.Azap
