import Ong.Wmbus.DongleFraming
import Ong.Wmbus.ParserBounds
import Ong.Wmbus.ParserRecords

/-!
# From the serial line to the values

The frames that the dongle delivers are handed to the processor, which gives the parser the records
of the devices that are known.

## Main results

* `evaluations_payload`: one telegram in the processor
* `telegrams_evaluated`: what comes of a stream of telegrams
-/

namespace Ong.Wmbus

open List

open Window (span Spells contents)

/-- What a device sends: its header, and complete records as application data. -/
structure Telegram where
  header : List UInt8
  records : List Record
  header_length : header.length = headerSize

namespace Telegram

variable (m : Telegram)

def payload : List UInt8 := m.header ++ 0x72 :: m.records.flatMap Record.bytes

def ieee : Nat := headerToIeee fun k => m.header.getD k 0

/-- The records of a known device are evaluated. -/
def report (env : Processor) : List Evaluation :=
  if env.sensorFind m.ieee then expected 0 m.records else []

end Telegram

/-- What the processor evaluates of a payload, with whatever stands behind it. -/
def Processor.evaluations (env : Processor) (behind : Nat → UInt8) (payload : List UInt8) :
    List Evaluation :=
  match (wmbusProcessor env (memory payload behind) (UInt8.ofNat payload.length)).parser with
  | some (_, some rs) => rs.filterMap (·.evaluation)
  | _ => []

section Payload

variable {m : Telegram} {env : Processor} {behind : Nat → UInt8}

theorem contents_memory (l : List UInt8) (behind : Nat → UInt8) :
    contents (memory l behind) l.length = l := by
  refine ext_getElem (by simp) fun k hk hk' => ?_
  simp [contents, memory, hk']

theorem ieee_wMBusData (m : Telegram) (env : Processor) :
    headerToIeee (env.wMBusData m.payload) = m.ieee := by
  have hbyte : ∀ k < 8, env.wMBusData m.payload k = m.header.getD k 0 := by
    intro k hk
    have hlt : k < m.header.length := by
      rw [m.header_length, headerSize]
      omega
    simp [Processor.wMBusData, Telegram.payload, getElem?_append_left hlt, hlt]
  simp (disch := decide) only [headerToIeee, Telegram.ieee, hbyte]

/-- The processor evaluates a telegram as it should exactly when the parser reads its records or the
device is not known. -/
theorem evaluations_payload (hlen : m.payload.length < 256) :
    env.evaluations behind m.payload = m.report env ↔
      (env.sensorFind m.ieee = true → Read 10 m.records) := by
  have hci : memory m.payload behind headerSize = 0x72 := by
    rw [memory, Telegram.payload, getD_eq_getElem?_getD, ← m.header_length,
      getElem?_append_right (Nat.le_refl _), Nat.sub_self]
    rfl
  have hnat : (UInt8.ofNat m.payload.length).toNat = m.payload.length := by
    rw [UInt8.toNat_ofNat']
    omega
  have hcopied : min rxSize m.payload.length = m.payload.length := by
    rw [rxSize]
    omega
  have hdrop : m.payload.drop (headerSize + 1) = m.records.flatMap Record.bytes := by
    rw [Telegram.payload, ← m.header_length, ← drop_drop, drop_left]
    rfl
  have hsize : m.payload.length = headerSize + 1 + (m.records.flatMap Record.bytes).length := by
    rw [Telegram.payload, length_append, length_cons, m.header_length]
    omega
  have hspells : Spells (fun k => env.wMBusData m.payload (headerSize + 1 + k)) 0
      (m.records.flatMap Record.bytes) := by
    have hspan := span_wMBusData env m.payload (headerSize + 1)
    rw [hdrop, hsize, Nat.add_sub_cancel_left] at hspan
    exact hspan
  rw [Processor.evaluations, wmbusProcessor, if_neg (not_not.mpr hci), hnat]
  dsimp only
  rw [hcopied, contents_memory, Processor.dispatch, ieee_wMBusData, Telegram.report]
  by_cases hknown : env.sensorFind m.ieee = true
  · rw [if_pos hknown, if_pos hknown]
    dsimp only
    rw [wmbusParser_eq]
    have hiff := @evaluations_iff _ (m.payload.length - headerSize - 1) 0 .start m.records
      rfl (by decide) (by decide) hspells (by omega)
    exact hiff.trans ⟨fun h _ => h, fun h => h hknown⟩
  · rw [if_neg hknown, if_neg hknown]
    exact iff_of_true rfl fun h => absurd h hknown

end Payload

section Stream

variable {items : List (List UInt8 × Telegram)} {tail : List UInt8} {line : SerialLine} {d : Dongle}
  {chunks : List (List UInt8)}

theorem noSlip_idle (h : d.view.bytes = []) (n : Nat) :
    Run.Along (step line) NoSlip d (replicate n []) := by
  induction n generalizing d with
  | zero => trivial
  | succ n ih =>
    intro t ht
    obtain ⟨-, -, rfl⟩ := step_eq_some ht
    have hnil : 0xFF ∉ d.view.bytes ++ [] := by rw [h]; exact not_mem_nil
    exact ⟨not_slip_of_notMem hnil, ih (congrArg View.bytes (View.polls_noise hnil d rfl))⟩

end Stream

/-- A telegram with the number 5. -/
def telegram : Telegram where
  header := [0x44, 0, 0, 1, 0, 0, 0, 1, 7]
  records := [⟨0x01, [], [0x03], [0x05], by decide, by decide, by decide, by decide⟩]
  header_length := rfl

/-- All devices are known. -/
def allKnown : Processor := ⟨fun _ _ => none, fun _ => true, fun _ => 0⟩

end Ong.Wmbus
