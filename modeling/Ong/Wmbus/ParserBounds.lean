import Ong.Wmbus.Parser

/-!
# The bounds of the parser

What `wmbusProcessor` and `wmbusParser` touch when a frame has come in: bytes of the payload, cells
of the buffer of the value, and bits of the integers that DIFE bits are shifted into.

## Main results

* `inside_iff_fits`: the parser on any bytes
* `safe_iff_fits`: a received frame
-/

namespace Ong.Wmbus

open Access

open Window (span contents)

/-! ### Complete data fields -/

/-- The bytes that data of variable length read from their length on, and the bytes that the index
passes; `none` where the function returns. -/
def variableSize (lvar : Nat) : Option (Nat × Nat) :=
  if lvar ≤ 0xBF then some (lvar + 1, lvar)
  else if 0xC0 ≤ lvar ∧ lvar ≤ 0xC9 then some (lvar - 0xC0 + 1, lvar - 0xC0)
  else if 0xD0 ≤ lvar ∧ lvar ≤ 0xD9 then some (lvar - 0xD0 + 1, lvar - 0xD0)
  else if 0xE0 ≤ lvar ∧ lvar ≤ 0xEF then none
  else if lvar = 0xF8 then some (5, 3)
  else some (1, 0)

/-- The same for a coding and the first byte of its data. -/
def fieldSize (coding : Nat) (c : UInt8) : Option (Nat × Nat) :=
  match coding with
  | 2 => some (2, 1)
  | 3 => some (3, 2)
  | 4 | 5 => some (4, 3)
  | 6 => some (6, 5)
  | 7 => some (8, 7)
  | 9 | 10 | 11 | 12 | 14 => some (coding - 8, coding - 8 - 1)
  | 13 => variableSize c.toNat
  | _ => some (1, 0)

/-- In a state, with a coding and a count of DIFE bytes: no more than eight DIFE bytes are shifted,
the extended ones of all records counted, and data whose first byte is there are complete. -/
def Fits : ParserState → Nat → Nat → List UInt8 → Prop
  | _, _, _, [] => True
  | .readDif, _, m, c :: rest =>
    Fits (if 128 ≤ c.toNat then .readDife else .readVif) (c.toNat % 16) m rest
  | .readDife, coding, m, c :: rest =>
    3 ≤ m ∧
      if 128 ≤ c.toNat then Fits .readDife coding (m - 1) rest else Fits .readVif coding m rest
  | .readVif, coding, m, c :: rest =>
    if 128 ≤ c.toNat then c = 0xFB ∨ c = 0xFD → Fits .readVife coding m rest
    else Fits .readData coding m rest
  | .readVife, coding, m, _ :: rest => Fits .readData coding m rest
  | .readData, coding, m, c :: rest =>
    ∀ count advance, fieldSize coding c = some (count, advance) →
      count ≤ rest.length + 1 ∧ Fits .readDif coding m (rest.drop advance)
  termination_by _ _ _ bytes => bytes.length
  decreasing_by all_goals simp only [List.length_cons, List.length_drop]; omega

/-! ### A received frame -/

/-- `sizeof(wmBusHeader_t)` -/
def headerSize : Nat := 9

/-- `WMBUS_RX_BUFFER_SIZE` -/
def rxSize : Nat := 512

def headerToIeee (headers : Nat → UInt8) : Nat :=
  (headers 1).toNat * 2 ^ 40 + (headers 2).toNat * 2 ^ 48 + (headers 7).toNat * 2 ^ 32 +
    (headers 6).toNat * 2 ^ 24 + (headers 5).toNat * 2 ^ 16 + (headers 4).toNat * 2 ^ 8 +
    (headers 3).toNat

/-- What the processor finds around it: the libraries for proprietary data, which fill a buffer of
`rxSize` bytes at most, the devices, and what the stack held before. -/
structure Processor where
  preprocess : (Nat → UInt8) → Nat → Option { converted : List UInt8 // converted.length ≤ rxSize }
  sensorFind : Nat → Bool
  stack : Nat → UInt8

/-- What is touched of the payload and of the message in `wMBusData`, the size of the message, and
the length that the parser is given, with what it does. -/
structure Processed where
  payload : List (Access ParserBound)
  message : List (Access ParserBound)
  size : Nat
  parser : Option (Int × Option (List Round))

/-- `wMBusData`, when a message has been copied. -/
def Processor.wMBusData (env : Processor) (message : List UInt8) : Nat → UInt8 := fun k =>
  message.getD k (env.stack k)

/-- The part behind the copy. -/
def Processor.dispatch (env : Processor) (payload : List (Access ParserBound))
    (message : List UInt8) : Processed where
  payload := payload
  message := [.read 1 7]
  size := message.length
  parser :=
    if env.sensorFind (headerToIeee (env.wMBusData message)) then
      -- computed without a sign, and an `int` again
      let len : Int := message.length - headerSize - 1
      some (len, wmbusParser (fun k => env.wMBusData message (headerSize + 1 + k)) len)
    else none

/-- `wmbusProcessor`, for the memory from `data` on. -/
def wmbusProcessor (env : Processor) (data : Nat → UInt8) (len : UInt8) : Processed :=
  if data headerSize ≠ 0x72 then
    match env.preprocess data len.toNat with
    | none => ⟨[.read headerSize 1], [], 0, none⟩
    | some converted => env.dispatch [.read headerSize 1] converted.1
  else
    let copied := min rxSize len.toNat
    env.dispatch [.read headerSize 1, .read 0 copied] (contents data copied)

/-- What is read is in the payload, or in the message; the parser is given no negative length, ends,
and touches bytes of the message, cells of `valBuffer` and bits of an `int`. -/
structure Safe (len : UInt8) (t : Processed) : Prop where
  payload : Access.Inside ParserBound.size len.toNat t.payload
  message : Access.Inside ParserBound.size t.size t.message
  parser : ∀ n result, t.parser = some (n, result) → 0 ≤ n ∧ ∃ rs, result = some rs ∧
    ∀ r ∈ rs, Access.Inside ParserBound.size n.toNat r.accesses

/-- A message with a complete header; if its device is known, also with a CI byte, and with data
that fit. -/
def Processor.MessageFits (env : Processor) (message : List UInt8) : Prop :=
  8 ≤ message.length ∧
    (env.sensorFind (headerToIeee (env.wMBusData message)) = true →
      headerSize + 1 ≤ message.length ∧ Fits .readDif 0 10 (message.drop (headerSize + 1)))

variable {mem : Nat → UInt8} {i n : Nat} {p : Parser} {c : UInt8}

/-! ### The parser -/

theorem cells_of_some {field : Field} (h : field.cells ≤ 256) :
    ∀ f, some field = some f → f.cells ≤ 256 :=
  fun _ hf => Option.some.inj hf ▸ h

theorem readVariable_size :
    (readVariable mem i).map (fun f => (f.count, f.advance)) = variableSize (mem i).toNat ∧
      ∀ f, readVariable mem i = some f → f.cells ≤ 256 := by
  rw [readVariable, variableSize]
  split
  · exact ⟨rfl, cells_of_some (by dsimp only; omega)⟩
  split
  · exact ⟨rfl, cells_of_some (by dsimp only; omega)⟩
  split
  · exact ⟨rfl, cells_of_some (by dsimp only; omega)⟩
  split
  · exact ⟨rfl, nofun⟩
  split
  · exact ⟨rfl, cells_of_some (Nat.le_refl 256)⟩
  · exact ⟨rfl, cells_of_some (Nat.zero_le 256)⟩

theorem readData_size (mem : Nat → UInt8) (i coding : Nat) :
    (readData mem i coding).map (fun f => (f.count, f.advance)) = fieldSize coding (mem i) ∧
      ∀ f, readData mem i coding = some f → f.cells ≤ 256 := by
  match coding with
  | 0 => exact ⟨rfl, cells_of_some (by decide)⟩
  | 1 | 2 | 3 | 4 | 5 | 7 => exact ⟨rfl, cells_of_some (Nat.le_refl 256)⟩
  | 6 | 8 | 15 => exact ⟨rfl, cells_of_some (Nat.zero_le 256)⟩
  | 9 | 10 | 11 | 12 | 14 => exact ⟨rfl, cells_of_some (by dsimp only; omega)⟩
  | 13 => exact readVariable_size
  | k + 16 => exact ⟨rfl, cells_of_some (by decide)⟩

/-- The passes from an index on stay inside. -/
def RoundsInside (mem : Nat → UInt8) (n i : Nat) (p : Parser) : Prop :=
  ∀ r ∈ rounds mem n i p, Access.Inside ParserBound.size n r.accesses

theorem roundsInside_stop (h : n ≤ i) : RoundsInside mem n i p := by
  rw [RoundsInside, rounds_stop (by omega)]
  exact List.forall_mem_nil _

theorem roundsInside_return (h : i < n) (hnext : (round mem i p).next = none) :
    RoundsInside mem n i p ↔ Inside ParserBound.size n (round mem i p).accesses := by
  rw [RoundsInside, rounds_return (by omega) hnext, List.forall_mem_singleton]

theorem roundsInside_step {i' : Nat} {p' : Parser} (h : i < n)
    (hnext : (round mem i p).next = some (i', p')) :
    RoundsInside mem n i p ↔ Inside ParserBound.size n (round mem i p).accesses ∧
      RoundsInside mem n (i' + 1) p' := by
  rw [RoundsInside, rounds_step (by omega) hnext, List.forall_mem_cons]
  exact Iff.rfl

/-! ### One pass -/

/-- The passes from an index on stay inside where the bytes fit, whatever the state. -/
def FitsFrom (mem : Nat → UInt8) (n i : Nat) : Prop :=
  ∀ q : Parser, q.maxDife ≤ 10 →
    (RoundsInside mem n i q ↔ Fits q.state q.coding q.maxDife (span mem i (n - i)))

theorem inside_read (hi : i < n) :
    Inside ParserBound.size n [(read i 1 : Access ParserBound)] :=
  inside_cons.mpr ⟨within_read.mpr hi, inside_nil⟩

section Pass

variable (hi : i < n) (hle : p.maxDife ≤ 10) (hbehind : FitsFrom mem n (i + 1))

include hi hle hbehind

theorem fits_readDif (hstate : p.state = .readDif) :
    RoundsInside mem n i p ↔
      Fits .readDif p.coding p.maxDife (mem i :: span mem (i + 1) (n - (i + 1))) := by
  have hnext : (round mem i p).next = some (i, readDif (mem i) i p) := by
    rw [round, hstate]
  have haccesses : Inside ParserBound.size n (round mem i p).accesses := by
    rw [round, hstate]
    exact inside_cons.mpr ⟨within_read.mpr hi,
      inside_cons.mpr ⟨show 0 + 1 ≤ 256 by decide, inside_nil⟩⟩
  rw [roundsInside_step hi hnext, and_iff_right haccesses,
    hbehind (readDif (mem i) i p) hle, readDif_eq, Fits]
  exact Iff.rfl

theorem fits_readDife (hstate : p.state = .readDife) :
    RoundsInside mem n i p ↔
      Fits .readDife p.coding p.maxDife (mem i :: span mem (i + 1) (n - (i + 1))) := by
  have hmore := extended_iff (mem i)
  have haccesses : Inside ParserBound.size n (round mem i p).accesses ↔
      3 ≤ p.maxDife := by
    rw [round, hstate]
    simp only [inside_cons, inside_nil, within_use, within_read,
      ParserBound.size, and_true]
    omega
  rw [Fits]
  by_cases hcount : 3 ≤ p.maxDife
  · rw [and_iff_right hcount]
    by_cases hmask : mem i &&& 0x80 ≠ 0
    · have hnext : (round mem i p).next =
          some (i, { readDife (mem i) p with maxDife := p.maxDife - 1 }) := by
        rw [round, hstate]
        rw [if_pos hmask, if_neg (by omega)]
      rw [roundsInside_step hi hnext, and_iff_right (haccesses.mpr hcount),
        if_pos (hmore.mp hmask),
        hbehind ({ readDife (mem i) p with maxDife := p.maxDife - 1 })
          (show p.maxDife - 1 ≤ 10 by omega), readDife_eq]
      rw [hstate]
    · have hnext : (round mem i p).next =
          some (i, { readDife (mem i) p with state := .readVif }) := by
        rw [round, hstate]
        rw [if_neg hmask]
      rw [roundsInside_step hi hnext, and_iff_right (haccesses.mpr hcount),
        if_neg fun h => hmask (hmore.mpr h),
        hbehind ({ readDife (mem i) p with state := .readVif }) hle, readDife_eq]
  · refine iff_of_false (fun h => hcount (haccesses.mp ?_)) fun h => hcount h.1
    cases hnext : (round mem i p).next with
    | none => exact (roundsInside_return hi hnext).mp h
    | some next => exact ((roundsInside_step hi hnext).mp h).1

theorem fits_readVif (hstate : p.state = .readVif) :
    RoundsInside mem n i p ↔
      Fits .readVif p.coding p.maxDife (mem i :: span mem (i + 1) (n - (i + 1))) := by
  have hmore := extended_iff (mem i)
  have haccesses : Inside ParserBound.size n (round mem i p).accesses := by
    rw [round, hstate]
    exact inside_read hi
  rw [Fits]
  by_cases hmask : mem i &&& 0x80 ≠ 0
  · rw [if_pos (hmore.mp hmask)]
    by_cases htable : mem i = 0xFB ∨ mem i = 0xFD
    · have hnext : (round mem i p).next =
          some (i, { p with vib := (mem i).toNat, state := .readVife }) := by
        rw [round, hstate]
        dsimp only
        rw [if_pos hmask, if_pos htable]
      rw [roundsInside_step hi hnext, and_iff_right haccesses,
        hbehind ({ p with vib := (mem i).toNat, state := .readVife }) hle]
      exact ⟨fun h _ => h, fun h => h htable⟩
    · have hnext : (round mem i p).next = none := by
        rw [round, hstate]
        dsimp only
        rw [if_pos hmask, if_neg htable]
      rw [roundsInside_return hi hnext]
      exact iff_of_true haccesses fun h => absurd h htable
  · have hnext : (round mem i p).next =
        some (i, { p with vib := (mem i).toNat, state := .readData }) := by
      rw [round, hstate]
      dsimp only
      rw [if_neg hmask]
    rw [if_neg fun h => hmask (hmore.mpr h), roundsInside_step hi hnext, and_iff_right haccesses,
      hbehind ({ p with vib := (mem i).toNat, state := .readData }) hle]

theorem fits_readVife (hstate : p.state = .readVife) :
    RoundsInside mem n i p ↔
      Fits .readVife p.coding p.maxDife (mem i :: span mem (i + 1) (n - (i + 1))) := by
  have hnext : (round mem i p).next = some (i, { p with
      vib := (p.vib <<< 8) + (mem i).toNat, state := .readData }) := by
    rw [round, hstate]
  have haccesses : Inside ParserBound.size n (round mem i p).accesses := by
    rw [round, hstate]
    exact inside_read hi
  rw [Fits, roundsInside_step hi hnext, and_iff_right haccesses,
    hbehind ({ p with vib := (p.vib <<< 8) + (mem i).toNat, state := .readData }) hle]

end Pass

theorem fits_readData (hi : i < n) (hle : p.maxDife ≤ 10)
    (hbehind : ∀ i' > i, FitsFrom mem n i') (hstate : p.state = .readData) :
    RoundsInside mem n i p ↔
      Fits .readData p.coding p.maxDife (mem i :: span mem (i + 1) (n - (i + 1))) := by
  obtain ⟨hsize, hcells⟩ := readData_size mem i p.coding
  rw [Fits]
  cases hfield : readData mem i p.coding with
  | none =>
    have hround : round mem i p = ⟨[.read i 1], none, none⟩ := by
      rw [round, hstate]
      rw [hfield]
    rw [hfield, Option.map_none] at hsize
    rw [roundsInside_return hi (by rw [hround]), hround, ← hsize]
    exact iff_of_true (inside_read hi) nofun
  | some f =>
    have hround : round mem i p = ⟨[.read i f.count, .use .valBuffer 0 f.cells],
        some ⟨p.first, i + f.advance + 1, p.storage, p.function, p.coding, p.tarif,
          p.subunit, p.vib, f.valBuffer⟩,
        some (i + f.advance, { p with state := .readDif })⟩ := by
      rw [round, hstate]
      rw [hfield]
    have haccesses : Inside ParserBound.size n (round mem i p).accesses ↔
        f.count ≤ n - (i + 1) + 1 := by
      have := hcells f hfield
      rw [hround]
      simp only [inside_cons, inside_nil, within_use, within_read,
        ParserBound.size, and_true]
      omega
    have hdrop : (span mem (i + 1) (n - (i + 1))).drop f.advance =
        span mem (i + f.advance + 1) (n - (i + f.advance + 1)) := by
      rw [span, span, ← List.map_drop, List.drop_range', Nat.mul_one,
        show i + 1 + f.advance = i + f.advance + 1 by omega,
        show n - (i + 1) - f.advance = n - (i + f.advance + 1) by omega]
    rw [hfield, Option.map_some] at hsize
    rw [roundsInside_step hi (by rw [hround]), haccesses, ← hsize, Window.length_span,
      hbehind (i + f.advance + 1) (by omega) ({ p with state := .readDif }) hle]
    constructor
    · intro h count advance heq
      obtain ⟨rfl, rfl⟩ := Prod.mk.inj (Option.some.inj heq)
      exact ⟨h.1, hdrop ▸ h.2⟩
    · intro h
      have hfits := h f.count f.advance rfl
      exact ⟨hfits.1, hdrop ▸ hfits.2⟩

/-- **Which bytes the parser stays inside of**, from any state on. -/
theorem fitsFrom (mem : Nat → UInt8) (n i : Nat) : FitsFrom mem n i := by
  induction hleft : n - i using Nat.strong_induction_on generalizing i with
  | _ left ih =>
    intro p hle
    by_cases hi : i < n
    · have hlater : ∀ i' > i, FitsFrom mem n i' := fun i' hlt => ih (n - i') (by omega) i' rfl
      have hbehind := hlater (i + 1) (Nat.lt_succ_self i)
      rw [show n - i = n - (i + 1) + 1 by omega, Window.span_succ]
      cases hstate : p.state with
      | readDif => exact fits_readDif hi hle hbehind hstate
      | readDife => exact fits_readDife hi hle hbehind hstate
      | readVif => exact fits_readVif hi hle hbehind hstate
      | readVife => exact fits_readVife hi hle hbehind hstate
      | readData => exact fits_readData hi hle hlater hstate
    · rw [show n - i = 0 by omega]
      refine iff_of_true (roundsInside_stop (by omega)) ?_
      rw [span, List.range'_zero, List.map_nil, Fits]
      trivial

/-! ### A received frame -/

variable {env : Processor} {message : List UInt8} {payload : List (Access ParserBound)}
  {len : UInt8}

theorem span_wMBusData (env : Processor) (message : List UInt8) (i : Nat) :
    span (fun k => env.wMBusData message (i + k)) 0 (message.length - i) = message.drop i := by
  apply List.ext_getElem?
  intro k
  by_cases hk : k < message.length - i
  · rw [span, List.getElem?_map, List.getElem?_range' hk, Option.map_some, Processor.wMBusData,
      List.getD_eq_getElem?_getD, Nat.zero_add, Nat.one_mul, List.getElem?_drop,
      List.getElem?_eq_getElem (by omega), Option.getD_some]
  · rw [List.getElem?_eq_none (by simpa using hk), List.getElem?_eq_none (by simp; omega)]

theorem safe_dispatch (hpayload : Inside ParserBound.size len.toNat payload) :
    Safe len (env.dispatch payload message) ↔ env.MessageFits message := by
  have hheader : Inside ParserBound.size (env.dispatch payload message).size
      (env.dispatch payload message).message ↔ 8 ≤ message.length := by
    rw [Processor.dispatch]
    simp only [inside_cons, inside_nil, within_read, and_true]
  have hparser {n : Int} (hn : n = message.length - headerSize - 1)
      (hsize : headerSize + 1 ≤ message.length) :
      (∀ r ∈ rounds (fun k => env.wMBusData message (headerSize + 1 + k)) n 0 .start,
        Inside ParserBound.size n.toNat r.accesses) ↔
        Fits .readDif 0 10 (message.drop (headerSize + 1)) := by
    have hnat : n = ((message.length - (headerSize + 1) : Nat) : Int) := by omega
    have hfits := fitsFrom (fun k => env.wMBusData message (headerSize + 1 + k))
      (message.length - (headerSize + 1)) 0 .start (by decide)
    rw [Nat.sub_zero, span_wMBusData] at hfits
    rw [hnat, Int.toNat_natCast]
    exact hfits
  constructor
  · intro h
    refine ⟨hheader.mp h.message, fun hknown => ?_⟩
    obtain ⟨hpos, rs, hrs, hinside⟩ := h.parser _ _ (if_pos hknown)
    have hsize : headerSize + 1 ≤ message.length := by omega
    rw [wmbusParser_eq] at hrs
    obtain rfl := Option.some.inj hrs
    exact ⟨hsize, (hparser rfl hsize).mp hinside⟩
  · rintro ⟨hle, hfits⟩
    refine ⟨hpayload, hheader.mpr hle, fun n result heq => ?_⟩
    by_cases hknown : env.sensorFind (headerToIeee (env.wMBusData message)) = true
    · obtain ⟨hsize, hfits⟩ := hfits hknown
      rw [show (env.dispatch payload message).parser = _ from if_pos hknown] at heq
      obtain ⟨rfl, rfl⟩ := Prod.mk.inj (Option.some.inj heq)
      exact ⟨by omega, _, wmbusParser_eq, (hparser rfl hsize).mpr hfits⟩
    · rw [show (env.dispatch payload message).parser = _ from if_neg hknown] at heq
      cases heq

/-- **Which frames are handled inside their bounds.** -/
theorem safe_iff_fits (env : Processor) (data : Nat → UInt8) (len : UInt8) :
    Safe len (wmbusProcessor env data len) ↔
      headerSize + 1 ≤ len.toNat ∧
        if data headerSize ≠ 0x72 then
          ∀ converted, env.preprocess data len.toNat = some converted →
            env.MessageFits converted.1
        else env.MessageFits (contents data len.toNat) := by
  have hread : Access.Inside ParserBound.size len.toNat
      [(Access.read headerSize 1 : Access ParserBound)] ↔ headerSize + 1 ≤ len.toNat := by
    simp only [Access.inside_cons, Access.inside_nil, Access.within_read, and_true]
  have hcopied : min rxSize len.toNat = len.toNat := by
    have := len.toNat_lt
    rw [rxSize]
    omega
  rw [wmbusProcessor]
  by_cases hci : data headerSize ≠ 0x72
  · rw [if_pos hci, if_pos hci]
    cases hconverted : env.preprocess data len.toNat with
    | none =>
      constructor
      · exact fun h => ⟨hread.mp h.payload, fun converted heq => by cases heq⟩
      · exact fun h => ⟨hread.mpr h.1, Access.inside_nil, fun n result heq => by cases heq⟩
    | some converted =>
      constructor
      · intro h
        have hsize := hread.mp h.payload
        refine ⟨hsize, fun converted' heq => ?_⟩
        obtain rfl := Option.some.inj heq
        exact (safe_dispatch (hread.mpr hsize)).mp h
      · exact fun h => (safe_dispatch (hread.mpr h.1)).mpr (h.2 converted rfl)
  · rw [if_neg hci, if_neg hci]
    rw [hcopied]
    have hpayload : Access.Inside ParserBound.size len.toNat
        [(Access.read headerSize 1 : Access ParserBound), .read 0 len.toNat] ↔
          headerSize + 1 ≤ len.toNat := by
      simp only [Access.inside_cons, Access.inside_nil, Access.within_read, and_true, Nat.zero_add,
        Nat.le_refl]
    constructor
    · intro h
      have hsize := hpayload.mp h.payload
      exact ⟨hsize, (safe_dispatch (hpayload.mpr hsize)).mp h⟩
    · exact fun h => (safe_dispatch (hpayload.mpr h.1)).mpr h.2

/-- A record of 32 bits of which two bytes have come in: four are read. -/
theorem not_safe_truncated :
    ¬Safe 14 (wmbusProcessor ⟨fun _ _ => none, fun _ => true, fun _ => 0⟩
      (fun k => [0x44, 0xC4, 0x18, 0, 0, 0, 0, 1, 7, 0x72, 0x04, 0x03, 1, 0].getD k 0) 14) := by
  intro h
  obtain ⟨-, rs, hrs, hinside⟩ := h.parser 4 _ rfl
  have hrun := congrArg (Option.map fun rs => rs.flatMap (·.accesses)) hrs
  have htouched : some (rs.flatMap (·.accesses)) = some [.read 0 1, .use .valBuffer 0 1,
      .read 1 1, .read 2 4, .use .valBuffer 0 256] :=
    hrun.symm.trans (by decide)
  obtain ⟨r, hr, hread⟩ := List.mem_flatMap.mp
    (Option.some.inj htouched ▸ (by decide : Access.read 2 4 ∈ [Access.read 0 1,
      .use ParserBound.valBuffer 0 1, .read 1 1, .read 2 4, .use .valBuffer 0 256]))
  exact absurd (hinside r hr _ hread) (by decide)

end Ong.Wmbus
