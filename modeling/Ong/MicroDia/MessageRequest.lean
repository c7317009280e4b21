import Ong.MicroDia.MessageTarget
import Ong.MicroDia.MessageOptions
import Ong.MicroDia.MessageQuery

/-!
# The requests that are sent

A request to a target on the local host that fits the encoding and the buffers is sent as a header,
its options and its content.

## Main results

* `Request.Fits.encodable`: the options can be written
* `requestMessage_eq_layout`: what is sent
-/

namespace Ong.MicroDia

open Decimal Pieces DeltaOptions List Or

/-- A request of the application's to a target on the local host; retrieval and deletion have no
content. -/
structure Request where
  method : Method
  reqEntity : List UInt8
  target : Target
  ctt : List UInt8
  cttType : String
  cttType_ok : cttType = "" ∨ cttType ∈ contentTypes
  bare : method = .get ∨ method = .delete → ctt = [] ∧ cttType = ""

/-- The port as an option, when the target has one. -/
def Target.portOptions (t : Target) : List (Nat × List UInt8) :=
  match t.port with
  | none => []
  | some n => [(coapOptionUriPort, [UInt8.ofNat (portSent n / 256), UInt8.ofNat (portSent n % 256)])]

namespace Request

/-- The pieces of the path that are sent. -/
def paths (r : Request) : List (List UInt8) := cut 47 (maxArgs - 1) r.target.parts.path

/-- The query that is sent. -/
def query (r : Request) : List UInt8 := withEntity r.target.parts.query r.reqEntity

/-- The parts of the query that are sent. -/
def queries (r : Request) : List (List UInt8) := cut 38 (maxArgs - 1) r.query

/-- The options before those of the query. -/
def optionsBefore (r : Request) (tid : Nat) : List (Nat × List UInt8) :=
  cttTypeOptions r.cttType ++ [(coapOptionUriHost, r.target.host.text)] ++ r.target.portOptions ++
    r.paths.map (fun arg => (coapOptionUriPath, arg)) ++ [(coapOptionToken, custom_itoa tid)]

/-- The options of a request. -/
def options (r : Request) (tid : Nat) : List (Nat × List UInt8) :=
  r.optionsBefore tid ++ r.queries.map fun arg => (coapOptionUriQuery, arg)

/-- The number of bytes in the buffer of the query before the key. -/
def beforeKey (r : Request) : Nat :=
  if r.target.parts.query = [] then 0 else r.target.parts.query.length + 1

/-- The request fits the buffers of the parts, the count of the options and the message.  A part has
room if what was there and twice what is copied fit, since the terminator is written behind that. -/
structure Fits (r : Request) (tid : Nat) : Prop where
  path : ∀ p ∈ r.target.path, 2 * p.length ≤ coapPathSize
  query : ∀ q ∈ r.target.query, 2 * q.length ≤ coapQuerySize
  key : r.reqEntity ≠ [] → r.beforeKey + 2 * queryKey.length ≤ coapQuerySize
  entity : r.reqEntity ≠ [] →
    r.beforeKey + queryKey.length + 2 * r.reqEntity.length ≤ coapQuerySize
  options : (r.options tid).length < 16
  message : 4 + (encode 0 (r.options tid)).length + r.ctt.length < coapMaxPduSize

end Request

theorem newDiaTid_lt (c : RequestTable) : c.newDiaTid < 2 ^ 31 := by
  unfold RequestTable.newDiaTid coapMaxTokenValue
  split <;> omega

theorem newCoapTid_lt (c : RequestTable) : c.newCoapTid < 65536 := by
  unfold RequestTable.newCoapTid coapMaxTid
  split <;> omega

section Parts

variable {r : Request} {tid : Nat} {o : Nat × List UInt8}

theorem Request.Fits.path_eq (h : r.Fits tid) : r.target.parts.path = r.target.path.getD [] := by
  unfold Target.parts
  cases hp : r.target.path with
  | none => rfl
  | some p =>
    exact take_of_length_le (Nat.le_trans (Nat.le_mul_of_pos_left _ Nat.two_pos) (h.path p hp))

theorem Request.Fits.query_le (h : r.Fits tid) : r.query.length ≤ coapQuerySize := by
  have hentity := h.entity
  unfold Request.beforeKey at hentity
  unfold Request.query withEntity
  by_cases he : r.reqEntity = []
  · rw [if_pos he]
    change (ite _ _ _ : List UInt8).length ≤ _
    split
    · exact Nat.zero_le _
    · exact length_take_le _ _
  · have := hentity he
    rw [if_neg he]
    by_cases hq : r.target.parts.query = []
    · rw [if_pos hq] at this ⊢
      rw [length_append]
      omega
    · rw [if_neg hq] at this ⊢
      rw [length_append, length_cons, length_append]
      omega

theorem Request.Fits.count_path_le (h : r.Fits tid) :
    r.target.parts.path.count 47 ≤ maxArgs - 1 := by
  by_contra hlt
  have hlen := le_length_cut (Nat.lt_of_not_le hlt)
  have hopts := h.options
  unfold Request.options Request.optionsBefore at hopts
  simp only [length_append, length_map] at hopts
  unfold Request.paths at hopts
  unfold maxArgs at hlen hopts
  omega

theorem Request.Fits.count_query_le (h : r.Fits tid) : r.query.count 38 ≤ maxArgs - 1 := by
  by_contra hlt
  have hlen := le_length_cut (Nat.lt_of_not_le hlt)
  have hopts := h.options
  unfold Request.options Request.queries at hopts
  simp only [length_append, length_map] at hopts
  unfold maxArgs at hlen hopts
  omega

theorem Request.Fits.sum_paths_le (h : r.Fits tid) :
    (r.paths.map (·.length + 1)).sum ≤ coapPathSize + 1 := by
  refine Nat.le_trans (sum_length_cut_le h.count_path_le) (Nat.succ_le_succ ?_)
  exact length_take_le _ _

theorem Request.Fits.sum_queries_le (h : r.Fits tid) :
    (r.queries.map (·.length + 1)).sum ≤ coapQuerySize + 1 :=
  Nat.le_trans (sum_length_cut_le h.count_query_le) (Nat.succ_le_succ h.query_le)

theorem length_host_le (host : LocalHost) : host.text.length ≤ 9 := by
  cases host <;> decide

theorem mem_cttTypeOptions {cttType : String} (h : o ∈ cttTypeOptions cttType) :
    o.1 = 1 ∧ o.2.length = 1 := by
  unfold cttTypeOptions at h
  split at h
  · cases h
  · rw [mem_singleton.mp h]
    exact ⟨rfl, rfl⟩

theorem mem_portOptions {t : Target} (h : o ∈ t.portOptions) : o.1 = 7 ∧ o.2.length = 2 := by
  unfold Target.portOptions at h
  split at h
  · cases h
  · rw [mem_singleton.mp h]
    exact ⟨rfl, rfl⟩

theorem mem_options (h : o ∈ r.options tid) :
    o ∈ cttTypeOptions r.cttType ∨ o = (5, r.target.host.text) ∨ o ∈ r.target.portOptions ∨
      (o.1 = 9 ∧ o.2 ∈ r.paths) ∨ o = (11, custom_itoa tid) ∨ (o.1 = 15 ∧ o.2 ∈ r.queries) := by
  unfold Request.options Request.optionsBefore at h
  simp only [mem_append, mem_singleton, mem_map] at h
  rcases h with ((((h | h) | h) | ⟨p, hp, rfl⟩) | h) | ⟨q, hq, rfl⟩
  · exact inl h
  · exact inr (inl h)
  · exact inr (inr (inl h))
  · exact inr (inr (inr (inl ⟨rfl, hp⟩)))
  · exact inr (inr (inr (inr (inl h))))
  · exact inr (inr (inr (inr (inr ⟨rfl, hq⟩))))

theorem mem_map_number {k : Nat} {args : List (List UInt8)} :
    ∀ o ∈ args.map fun arg => (k, arg), o.1 = k := by
  intro o ho
  obtain ⟨_, _, rfl⟩ := mem_map.mp ho
  rfl

theorem mem_singleton_number {k : Nat} {value : List UInt8} : ∀ o ∈ [(k, value)], o.1 = k := by
  intro o ho
  rw [mem_singleton.mp ho]

theorem ascending_options (r : Request) (tid : Nat) :
    Ascending (r.options tid) coapOptionUriQuery := by
  have hctt : Ascending (cttTypeOptions r.cttType) 1 :=
    (ascending_nil 0).append (by decide) fun o ho => (mem_cttTypeOptions ho).1
  have hhost := hctt.append (by decide) (@mem_singleton_number coapOptionUriHost r.target.host.text)
  have hport := hhost.append (by decide) fun o (ho : o ∈ r.target.portOptions) =>
    (mem_portOptions ho).1
  have hpath := hport.append (by decide) (@mem_map_number coapOptionUriPath r.paths)
  have htoken := hpath.append (by decide) (@mem_singleton_number coapOptionToken (custom_itoa tid))
  exact htoken.append (by decide) mem_map_number

/-- The options can be written. -/
theorem Request.Fits.encodable (h : r.Fits tid) : Encodable 0 (r.options tid) := by
  refine (ascending_options r tid).encodable (by decide) fun o ho => ?_
  rcases mem_options ho with ho | rfl | ho | ⟨ho, hp⟩ | rfl | ⟨ho, hq⟩
  · rw [(mem_cttTypeOptions ho).2]
    decide
  · exact Nat.le_trans (length_host_le r.target.host) (by decide)
  · rw [(mem_portOptions ho).2]
    decide
  · have h1 := length_le_of_mem_cut h.count_path_le hp
    have h2 : r.target.parts.path.length ≤ coapPathSize := length_take_le _ _
    unfold coapPathSize at h2
    omega
  · exact Nat.le_trans (@length_textLoop_le 23 tid []) (by decide)
  · have h1 := length_le_of_mem_cut h.count_query_le hq
    have h2 := h.query_le
    unfold coapQuerySize at h2
    omega

end Parts

section Sending

variable {r : Request} {tid : Nat}

theorem isLocalHost_text (host : LocalHost) : isLocalHost host.text = true := by
  cases host <;> decide

theorem host_text_ne_nil (host : LocalHost) : host.text ≠ [] := by
  cases host <;> decide

theorem splitPortText_of_some {t : Target} {n : Nat} (h : t.port = some n) :
    t.splitPortText ≠ [] ∧ t.splitPortText ≠ coapDefaultPort := by
  have hport : t.splitPortText = coapDefaultPort ++ (portText n).take 2 := by
    rw [Target.splitPortText, h]
  have htake : (portText n).take 2 ≠ [] := by
    rw [Ne, take_eq_nil_iff, not_or]
    exact ⟨by decide, portText_ne_nil n⟩
  rw [hport]
  exact ⟨append_ne_nil_of_right_ne_nil _ htake, fun h => htake (append_right_eq_self.mp h)⟩

theorem Draft.Holds.putTarget {d : Draft} {code coap_tid : Nat} {os : List (Nat × List UInt8)}
    (h : d.Holds code coap_tid os) {targetID : List UInt8}
    (hfits : FitsPdu (os ++ [(coapOptionUriHost, r.target.host.text)] ++ r.target.portOptions ++
      r.paths.map fun arg => (coapOptionUriPath, arg))) :
    (d.putTarget r.target.parts targetID).Holds code coap_tid
      (os ++ [(coapOptionUriHost, r.target.host.text)] ++ r.target.portOptions ++
        r.paths.map fun arg => (coapOptionUriPath, arg)) := by
  have hhost := h.putOption hfits.left.left
  have hport : (if r.target.parts.port = [] ∨ r.target.parts.port = coapDefaultPort
      then d.putOption coapOptionUriHost r.target.host.text
      else (d.putOption coapOptionUriHost r.target.host.text).putOptionUint coapOptionUriPort
        r.target.parts.port).Holds code coap_tid
      (os ++ [(coapOptionUriHost, r.target.host.text)] ++ r.target.portOptions) := by
    have hleft := hfits.left
    unfold Target.portOptions at hleft ⊢
    show (if r.target.splitPortText = [] ∨ r.target.splitPortText = coapDefaultPort
      then _ else Draft.putOptionUint _ _ r.target.splitPortText).Holds _ _ _
    cases hp : r.target.port with
    | none =>
      rw [if_pos (inr (by rw [Target.splitPortText, hp])), append_nil]
      exact hhost
    | some n =>
      obtain ⟨hne, hdefault⟩ := splitPortText_of_some hp
      rw [if_neg (not_or.mpr ⟨hne, hdefault⟩)]
      rw [hp] at hleft
      refine hhost.putOptionUint ?_ hleft
      rw [Target.splitPortText, hp]
      rfl
  have hpath := hport.putAll hfits
  have hlocal : (!isLocalHost r.target.parts.host) = false := by
    rw [show r.target.parts.host = r.target.host.text from rfl, isLocalHost_text]
    rfl
  unfold Draft.putTarget
  rw [hlocal, if_neg Bool.false_ne_true]
  have hne : r.target.parts.host ≠ [] := host_text_ne_nil r.target.host
  simp only [if_neg hne]
  exact hpath

/-- **What is sent.** -/
theorem requestMessage_eq_layout (h : r.Fits tid) (coap_tid : Nat) :
    requestMessage coap_tid tid r.method r.reqEntity r.target.text r.ctt r.cttType =
      layout r.method.code coap_tid (r.options tid) r.ctt := by
  have hfits : FitsPdu (r.options tid) := by
    have := h.message
    unfold FitsPdu
    omega
  have hheader := @holds_header r.method.code coap_tid
  have hctt := hheader.putContentType r.cttType
  have htarget := @Draft.Holds.putTarget r _ _ _ _ hctt r.target.text hfits.left.left
  have htoken := htarget.putOption hfits.left
  have hquery := htoken.putAll hfits
  have hsent : sentQuery r.target.parts.query r.reqEntity = r.query := sentQuery_eq h.query_le
  refine Eq.trans ?_ (hquery.finish h.message)
  rw [requestMessage, dIa_split_uri_text]
  simp only [hsent]
  rfl

theorem sentRequest_eq (c : RequestTable) (r : Request) :
    c.sentRequest r.method r.reqEntity r.target.text r.ctt r.cttType =
      requestMessage c.newCoapTid c.newDiaTid r.method r.reqEntity r.target.text r.ctt r.cttType := by
  cases hm : r.method with
  | get =>
    obtain ⟨hctt, htype⟩ := r.bare (inl hm)
    rw [hctt, htype]
    rfl
  | post | put => rfl
  | delete =>
    obtain ⟨hctt, htype⟩ := r.bare (inr hm)
    rw [hctt, htype]
    rfl

end Sending

end Ong.MicroDia
