import Ong.MicroDia.Message

/-!
# The layout of the messages

A message that fits its buffer is a header of four bytes, its options in delta coding, and its
content, and the receiving side reads the header and the options back from it.

## Main results

* `Holds.putOption`, `Holds.putAll`: what a draft holds after more options
* `Holds.finish`: the message made from a draft
* `messageOptcount_layout`, `read_layout`: what the receiving side reads
-/

namespace Ong.MicroDia

open DeltaOptions Pieces List UInt8

/-- A message: the number of the options is in its first byte. -/
def layout (code coap_tid : Nat) (os : List (Nat × List UInt8)) (ctt : List UInt8) : List UInt8 :=
  (0x40 + UInt8.ofNat os.length) :: UInt8.ofNat code :: UInt8.ofNat (coap_tid / 256) ::
    UInt8.ofNat (coap_tid % 256) :: (encode 0 os ++ ctt)

section Sending

variable {msg value : List UInt8} {opt prev code coap_tid : Nat} {d : Draft}
  {os os' : List (Nat × List UInt8)}

theorem putByte_of_lt (h : msg.length + 1 < coapMaxPduSize) (b : Nat) :
    putByte msg b = msg ++ [ofNat b] := if_pos h

theorem putBuffer_of_lt (h : msg.length + value.length < coapMaxPduSize) :
    putBuffer msg value = msg ++ value := if_neg (Nat.not_le.mpr h)

theorem encodeOption_of_lt
    (h : (msg ++ encodeOne prev opt value).length < coapMaxPduSize) :
    encodeOption msg opt prev value = msg ++ encodeOne prev opt value := by
  by_cases hshort : value.length < 15
  · rw [encodeOne, if_pos hshort, length_append, length_cons] at h
    have hput : encodeOption msg opt prev value =
        putBuffer (putByte msg ((opt - prev) * 16 + value.length)) value := by
      simp only [encodeOption, if_pos hshort]
    rw [hput, encodeOne, if_pos hshort, putByte_of_lt (by omega), putBuffer_of_lt,
      append_assoc, singleton_append]
    rw [length_append, length_singleton]
    omega
  · rw [encodeOne, if_neg hshort, length_append, length_cons, length_cons] at h
    have hput : encodeOption msg opt prev value =
        putBuffer (putByte (putByte msg ((opt - prev) * 16 + 15)) (value.length - 15)) value := by
      simp only [encodeOption, if_neg hshort]
    rw [hput, encodeOne, if_neg hshort, @putByte_of_lt msg (by omega), putByte_of_lt,
      putBuffer_of_lt, append_assoc, append_assoc, singleton_append,
      singleton_append]
    · simp only [length_append, length_singleton]
      omega
    · simp only [length_append, length_singleton]
      omega

/-- **The options a draft holds**, behind a header. -/
structure Draft.Holds (d : Draft) (code coap_tid : Nat) (os : List (Nat × List UInt8)) : Prop where
  msg : d.msg = 0x40 :: UInt8.ofNat code :: UInt8.ofNat (coap_tid / 256) ::
    UInt8.ofNat (coap_tid % 256) :: encode 0 os
  prevopt : d.prevopt = lastOption 0 os
  nbopt : d.nbopt = os.length

/-- The options fit the buffer behind a header. -/
def FitsPdu (os : List (Nat × List UInt8)) : Prop := 4 + (encode 0 os).length < coapMaxPduSize

theorem FitsPdu.left (h : FitsPdu (os ++ os')) : FitsPdu os := by
  unfold FitsPdu at h ⊢
  rw [encode_append, length_append] at h
  omega

theorem holds_header : (⟨header code coap_tid, 0, 0⟩ : Draft).Holds code coap_tid [] where
  msg := rfl
  prevopt := rfl
  nbopt := rfl

theorem lastOption_append (prev : Nat) (os : List (Nat × List UInt8)) (opt : Nat)
    (value : List UInt8) : lastOption prev (os ++ [(opt, value)]) = opt := by
  induction os generalizing prev with
  | nil => rfl
  | cons o os ih => exact ih o.1

/-- **One more option.** -/
theorem Draft.Holds.putOption (h : d.Holds code coap_tid os) (hfits : FitsPdu (os ++ [(opt, value)])) :
    (d.putOption opt value).Holds code coap_tid (os ++ [(opt, value)]) := by
  have hmsg : d.msg ++ encodeOne d.prevopt opt value = 0x40 :: ofNat code ::
      ofNat (coap_tid / 256) :: ofNat (coap_tid % 256) ::
      encode 0 (os ++ [(opt, value)]) := by
    rw [h.msg, h.prevopt, encode_append]
    simp [encode]
  refine ⟨?_, (lastOption_append 0 os opt value).symm, ?_⟩
  · rw [Draft.putOption, encodeOption_of_lt, hmsg]
    rw [hmsg]
    unfold FitsPdu at hfits
    simp only [length_cons]
    omega
  · rw [Draft.putOption, h.nbopt, length_append, length_singleton]

/-- A list of options with one number is appended. -/
theorem Draft.Holds.putAll (h : d.Holds code coap_tid os) {args : List (List UInt8)}
    (hfits : FitsPdu (os ++ args.map fun arg => (opt, arg))) :
    (args.foldl (fun d arg => d.putOption opt arg) d).Holds code coap_tid
      (os ++ args.map fun arg => (opt, arg)) := by
  induction args generalizing d os with
  | nil =>
    rw [map_nil, append_nil]
    exact h
  | cons arg args ih =>
    rw [map_cons, append_cons] at hfits ⊢
    exact ih (h.putOption hfits.left) hfits

/-- The content type as an option. -/
def cttTypeOptions (cttType : String) : List (Nat × List UInt8) :=
  if cttType = "" then [] else [(coapOptionContentType, [UInt8.ofNat (dia2coap_cttType cttType)])]

theorem Draft.Holds.putContentType (h : d.Holds code coap_tid []) (cttType : String) :
    (d.putContentType cttType).Holds code coap_tid (cttTypeOptions cttType) := by
  unfold Draft.putContentType cttTypeOptions
  split
  · exact h
  · rw [h.prevopt, h.nbopt, h.msg]
    exact ⟨rfl, rfl, rfl⟩

theorem Draft.Holds.putOptionUint (h : d.Holds code coap_tid os) {x : Nat}
    (hx : (Decimal.value (value.takeWhile Decimal.isDigit)).toNat % 65536 = x)
    (hfits : FitsPdu (os ++ [(opt, [ofNat (x / 256), ofNat (x % 256)])])) :
    (d.putOptionUint opt value).Holds code coap_tid
      (os ++ [(opt, [ofNat (x / 256), ofNat (x % 256)])]) := by
  subst hx
  have hopt := h.putOption hfits
  set x := (Decimal.value (value.takeWhile Decimal.isDigit)).toNat % 65536
  have hlen : d.msg.length + 3 < coapMaxPduSize := by
    unfold FitsPdu at hfits
    rw [encode_append, length_append] at hfits
    rw [h.msg]
    simp only [encode, encodeOne, append_nil, length_cons, length_nil] at hfits ⊢
    simp at hfits
    omega
  have hput : ∀ a b c, putByte (putByte (putByte d.msg a) b) c =
      d.msg ++ [ofNat a, ofNat b, ofNat c] := by
    intro a b c
    have h2 : (d.msg ++ [ofNat a]).length + 1 < coapMaxPduSize := by
      rw [length_append, length_singleton]
      omega
    have h3 : (d.msg ++ [ofNat a] ++ [ofNat b]).length + 1 < coapMaxPduSize := by
      rw [length_append, length_append, length_singleton, length_singleton]
      omega
    rw [@putByte_of_lt d.msg (by omega), putByte_of_lt h2, putByte_of_lt h3, append_assoc,
      append_assoc]
    rfl
  have heq : d.putOptionUint opt value =
      d.putOption opt [ofNat (x / 256), ofNat (x % 256)] := by
    rw [Draft.putOption, encodeOption_of_lt, Draft.putOptionUint, hput]
    · rfl
    · simp only [encodeOne, length_append, length_cons, length_nil]
      simp
      omega
  rw [heq]
  exact hopt

/-- **The message made from a draft.** -/
theorem Draft.Holds.finish (h : d.Holds code coap_tid os) {ctt : List UInt8}
    (hsize : 4 + (encode 0 os).length + ctt.length < coapMaxPduSize) :
    d.finish ctt = layout code coap_tid os ctt := by
  unfold Draft.finish layout
  rw [h.msg, h.nbopt]
  dsimp only
  split
  · rename_i hnil
    rw [hnil, append_nil]
  · rw [putBuffer_of_lt]
    · rfl
    · simp only [length_cons]
      omega

end Sending

section Receiving

variable {code coap_tid : Nat} {os : List (Nat × List UInt8)} {ctt : List UInt8}

theorem messageCode_layout (h : code < 256) : messageCode (layout code coap_tid os ctt) = code := by
  show (ofNat code).toNat = code
  rw [toNat_ofNat']
  omega

theorem messageId_layout (h : coap_tid < 65536) :
    messageId (layout code coap_tid os ctt) = coap_tid := by
  show (ofNat (coap_tid / 256)).toNat * 256 + (ofNat (coap_tid % 256)).toNat = coap_tid
  rw [toNat_ofNat', toNat_ofNat']
  omega

theorem messageOptcount_layout (h : os.length < 16) :
    messageOptcount (layout code coap_tid os ctt) = os.length := by
  show (0x40 + ofNat os.length).toNat % 16 = os.length
  show (64 + os.length % 2 ^ 8) % 2 ^ 8 % 16 = os.length
  omega

theorem drop_layout : (layout code coap_tid os ctt).drop 4 = encode 0 os ++ ctt := rfl

/-- **What the receiving side reads** behind the header. -/
theorem read_layout {σ : Type*} {handle : σ → Nat → Nat → List UInt8 → Option σ}
    (henc : Encodable 0 os) (hcount : os.length < 16) (st : σ) :
    DeltaOptions.read handle (messageOptcount (layout code coap_tid os ctt)) 0 st
        ((layout code coap_tid os ctt).drop 4) =
      (visit handle ctt st os).map fun st => (st, ctt) := by
  rw [messageOptcount_layout hcount, drop_layout, read_encode henc]

end Receiving

end Ong.MicroDia
