import Ong.MicroDia.MessageReading

/-!
# The requests that arrive as they were sent

What the callback of the receiving side is called with is compared with what was sent: the target by
its port, its path and its query, and the query together with the requesting entity.

## Main results

* `port_eq_iff`, `path_eq_iff`, `query_eq_iff`: the parts that arrive as they were sent
* `requestDelivered_iff`: the requests that do
-/

namespace Ong.MicroDia

open Decimal Pieces DeltaOptions List Option Target

section Target

variable {r : Request} {t : Target} {tid : Nat} {mark x : UInt8} {s : List UInt8}

/-- A part of a target behind its mark, left out when empty. -/
def optionalPart (mark : UInt8) (s : List UInt8) : List UInt8 := if s = [] then [] else mark :: s

theorem optionalPart_eq_cons_iff {u : List UInt8} :
    optionalPart mark s = mark :: u ↔ s = u ∧ u ≠ [] := by
  unfold optionalPart
  by_cases hs : s = []
  · rw [if_pos hs, hs]
    exact ⟨fun h => (cons_ne_nil _ _ h.symm).elim, fun h => (h.2 h.1.symm).elim⟩
  · rw [if_neg hs, cons.injEq]
    exact ⟨fun h => ⟨h.2, h.2 ▸ hs⟩, fun h => ⟨rfl, h.1⟩⟩

theorem optionalPart_eq_nil_iff : optionalPart mark s = [] ↔ s = [] := by
  unfold optionalPart
  split <;> simp_all

theorem head_optionalPart (mark : UInt8) (s : List UInt8) :
    ∀ x ∈ (optionalPart mark s).head?, x = mark := by
  intro x hx
  unfold optionalPart at hx
  split at hx
  · cases hx
  · exact (Option.some.inj hx).symm

theorem mem_optionalPart (h : x ∈ optionalPart mark s) : x = mark ∨ x ∈ s := by
  unfold optionalPart at h
  split at h
  · cases h
  · exact mem_cons.mp h

/-- The path and the query that arrive. -/
def Request.pathReceived (r : Request) : List UInt8 := r.paths.foldl (glue 47) []

def Request.queryReceived (r : Request) : List UInt8 := (r.queries.foldl splitPart ([], [])).1

theorem target_collected (r : Request) (tid : Nat) : (r.collected tid).target =
    bytes "coap://" ++ (r.target.host.text ++ (optionalPart 58 r.target.portReceived ++
      (optionalPart 47 r.pathReceived ++ optionalPart 63 r.queryReceived))) := by
  have hhost : (r.collected tid).uri.host ≠ [] := host_text_ne_nil r.target.host
  unfold RequestOptions.target
  rw [if_neg hhost]
  simp only [append_assoc]
  rfl

theorem text_normal (t : Target) : t.normal.text =
    bytes "coap://" ++ (t.host.text ++ (t.normal.portPart ++ (t.pathPart ++ t.queryPart))) := by
  unfold text normal
  split <;> rfl

theorem port_normal (t : Target) :
    t.normal.port = if t.port = some 5683 then none else t.port := by
  unfold normal
  split <;> rfl

theorem isDigit_ne (h : isDigit x = true) : x ≠ 47 ∧ x ≠ 63 := by
  constructor <;> (rintro rfl; cases h)

theorem mem_portReceived (h : x ∈ t.portReceived) : isDigit x = true := by
  unfold portReceived at h
  cases hp : t.port with
  | none =>
    rw [hp] at h
    cases h
  | some n =>
    rw [hp] at h
    rcases isDigit_of_mem_textLoop h with hx | hx
    · exact hx
    · cases hx

theorem mem_portPart (h : x ∈ t.portPart) : x = 58 ∨ isDigit x = true := by
  unfold portPart at h
  cases hp : t.port with
  | none =>
    rw [hp] at h
    cases h
  | some n =>
    rw [hp] at h
    exact (mem_cons.mp h).imp_right isDigit_of_mem_portText

theorem colon_or_digit_ne (h : x = 58 ∨ isDigit x = true) : x ≠ 47 ∧ x ≠ 63 := by
  rcases h with rfl | h
  · exact ⟨by decide, by decide⟩
  · exact isDigit_ne h

theorem notMem_pathPart (t : Target) : 63 ∉ t.pathPart := by
  unfold pathPart
  cases hp : t.path with
  | none => exact not_mem_nil
  | some p => exact mem_cons.not.mpr (not_or.mpr ⟨by decide, t.path_ok p hp⟩)

theorem notMem_pathReceived (h : r.Fits tid) : 63 ∉ r.pathReceived := by
  intro hmem
  have hpath := mem_of_mem_foldl_glue_cut h.count_path_le hmem
  rw [h.path_eq] at hpath
  cases hp : r.target.path with
  | none =>
    rw [hp] at hpath
    cases hpath
  | some p =>
    rw [hp] at hpath
    exact r.target.path_ok p hp hpath

theorem head_pathPart (t : Target) : ∀ x ∈ t.pathPart.head?, x = 47 := by
  unfold pathPart
  cases t.path with
  | none => exact fun x hx => absurd hx (not_mem_none x)
  | some p => exact fun x hx => (Option.some.inj hx).symm

theorem head_queryPart (t : Target) : ∀ x ∈ t.queryPart.head?, x = 63 := by
  unfold queryPart
  cases t.query with
  | none => exact fun x hx => absurd hx (not_mem_none x)
  | some q => exact fun x hx => (Option.some.inj hx).symm

theorem target_eq_iff (h : r.Fits tid) : (r.collected tid).target = r.target.normal.text ↔
    optionalPart 58 r.target.portReceived = r.target.normal.portPart ∧
      optionalPart 47 r.pathReceived = r.target.pathPart ∧
      optionalPart 63 r.queryReceived = r.target.queryPart := by
  rw [target_collected, text_normal]
  constructor
  · intro heq
    refine parts_inj (fun x hx => colon_or_digit_ne ?_) (fun x hx => colon_or_digit_ne ?_)
      (fun hx => ?_) (notMem_pathPart r.target) (head_optionalPart 47 _) (head_pathPart r.target)
      (head_optionalPart 63 _) (head_queryPart r.target)
      (append_cancel_left (append_cancel_left heq))
    · exact (mem_optionalPart hx).imp_right mem_portReceived
    · exact mem_portPart hx
    · rcases mem_optionalPart hx with hx | hx
      · cases hx
      · exact notMem_pathReceived h hx
  · rintro ⟨hport, hpath, hquery⟩
    rw [hport, hpath, hquery]

/-- The port that arrives as it was sent. -/
theorem port_eq_iff (t : Target) :
    optionalPart 58 t.portReceived = t.normal.portPart ↔ ∀ n ∈ t.port, n = 44056 := by
  unfold portReceived portPart
  rw [port_normal]
  cases hp : t.port with
  | none => exact ⟨fun _ n hn => absurd hn (not_mem_none n), fun _ => rfl⟩
  | some n =>
    have hlt := t.port_lt n hp
    have hn : (∀ m ∈ some n, m = 44056) ↔ n = 44056 :=
      ⟨fun h => h n rfl, fun h m hm => (Option.some.inj hm).symm.trans h⟩
    rw [hn]
    by_cases hdefault : n = 5683
    · rw [if_pos (by rw [hdefault])]
      show optionalPart 58 (custom_itoa (portSent n)) = [] ↔ _
      rw [optionalPart_eq_nil_iff]
      refine ⟨fun hnil => (textLoop_ne_nil (portSent_ne_zero hlt) hnil).elim, fun h => ?_⟩
      rw [h] at hdefault
      cases hdefault
    · rw [if_neg fun h => hdefault (Option.some.inj h)]
      show optionalPart 58 (custom_itoa (portSent n)) = 58 :: portText n ↔ _
      rw [optionalPart_eq_cons_iff, and_iff_left (portText_ne_nil n), ← portSent_eq_iff hlt]
      constructor
      · intro heq
        have hvalue := value_portText hlt
        rw [← heq, custom_itoa, value_textLoop (Nat.lt_trans (portSent_lt n) (by decide))] at hvalue
        exact Int.ofNat.inj hvalue
      · intro hsent
        have hpos := portSent_ne_zero hlt
        rw [hsent] at hpos ⊢
        rw [portText, if_neg hpos]

/-- The path that arrives as it was sent. -/
theorem path_eq_iff (h : r.Fits tid) : optionalPart 47 r.pathReceived = r.target.pathPart ↔
    ∀ p ∈ r.target.path, p ≠ [] ∧ p.head? ≠ some 47 ∧ p.getLast? ≠ some 47 := by
  have hglue := foldl_glue_cut_iff h.count_path_le
  have hreceived : r.pathReceived =
      (cut 47 (maxArgs - 1) r.target.parts.path).foldl (glue 47) [] := rfl
  rw [← hreceived] at hglue
  rw [h.path_eq] at hglue hreceived
  unfold pathPart
  cases hp : r.target.path with
  | none =>
    rw [hp] at hreceived
    exact ⟨fun _ p hp => absurd hp (not_mem_none p), fun _ => by rw [hreceived]; rfl⟩
  | some p =>
    rw [hp, getD_some] at hglue
    simp only [optionalPart_eq_cons_iff, hglue, mem_def, Option.some.injEq, forall_eq']
    exact and_comm

end Target

section Query

variable {r : Request} {tid : Nat}

/-- The entity that arrives. -/
def Request.entityReceived (r : Request) : List UInt8 := (r.queries.foldl splitPart ([], [])).2

theorem received_eq_iff (h : r.Fits tid) {query : List UInt8} (hquery : r.target.parts.query = query) :
    r.queryReceived = query ∧ r.entityReceived = r.reqEntity ↔ Separable query r.reqEntity := by
  subst hquery
  rw [← splitParts_iff h.count_query_le, Prod.ext_iff]
  rfl

theorem parts_query_of_path (h : r.Fits tid) (hpath : r.target.path ≠ none) :
    r.target.parts.query = r.target.query.getD [] := by
  unfold parts
  simp only [if_neg hpath]
  refine take_of_length_le ?_
  cases hq : r.target.query with
  | none => exact Nat.zero_le _
  | some q => exact Nat.le_trans (Nat.le_mul_of_pos_left _ Nat.two_pos) (h.query q hq)

theorem parts_query_of_none (h : r.target.path = none ∨ r.target.query = none) :
    r.target.parts.query = [] := by
  unfold parts
  rcases h with h | h
  · simp only [if_pos h]
  · simp only [h, getD_none, take_nil, ite_self]

theorem notMem_entityReceived (h : r.Fits tid) : (38 : UInt8) ∉ r.entityReceived :=
  notMem_foldl_splitPart (fun _ hp => notMem_of_mem_segments
    ((cut_sublist h.count_query_le).subset hp)) not_mem_nil

/-- The queries and entities that arrive as they were sent. -/
theorem query_eq_iff (h : r.Fits tid) :
    optionalPart 63 r.queryReceived = r.target.queryPart ∧ r.entityReceived = r.reqEntity ↔
      (∀ q ∈ r.target.query, r.target.path ≠ none ∧ q ≠ []) ∧
        Separable (r.target.query.getD []) r.reqEntity := by
  unfold queryPart
  cases hq : r.target.query with
  | none =>
    rw [optionalPart_eq_nil_iff, received_eq_iff h (parts_query_of_none (Or.inr hq))]
    exact (and_iff_right fun q hq => absurd hq (not_mem_none q)).symm
  | some q =>
    rw [optionalPart_eq_cons_iff]
    constructor
    · rintro ⟨⟨hquery, hne⟩, hentity⟩
      have hpath : r.target.path ≠ none := by
        intro hpath
        have hmem := notMem_entityReceived h
        rw [hentity] at hmem
        have hnil := (received_eq_iff h (parts_query_of_none (Or.inl hpath))).mpr (separable_nil hmem)
        exact hne (hquery.symm.trans hnil.1)
      refine ⟨fun q' hq' => ?_, ?_⟩
      · rw [← Option.some.inj hq']
        exact ⟨hpath, hne⟩
      · have hparts := parts_query_of_path h hpath
        rw [hq] at hparts
        exact (received_eq_iff h hparts).mp ⟨hquery, hentity⟩
    · rintro ⟨hall, hsep⟩
      obtain ⟨hpath, hne⟩ := hall q rfl
      have hparts := parts_query_of_path h hpath
      rw [hq] at hparts
      obtain ⟨hquery, hentity⟩ := (received_eq_iff h hparts).mpr hsep
      exact ⟨⟨hquery, hne⟩, hentity⟩

theorem overrun_iff (h : r.Fits tid) {query ctt : List UInt8} (hquery : r.target.parts.query = query)
    (hsep : Separable query r.reqEntity) : Overrun r.queries ctt ↔ r.reqEntity = [] ∧ query ≠ [] ∧
      ∃ p ∈ (segments 38 query).getLast?, queryKey.isPrefixOf (p ++ ctt) = true := by
  have hqueries : r.queries = trim (segments 38 (withEntity query r.reqEntity)) := by
    rw [← hquery]
    exact cut_eq_trim h.count_query_le
  rw [hqueries]
  unfold Overrun
  by_cases he : r.reqEntity = []
  · have hsent : withEntity query r.reqEntity = query := if_pos he
    rw [hsent]
    by_cases hq : query = []
    · rw [hq]
      exact ⟨fun ⟨p, hp, _⟩ => absurd hp (not_mem_none p), fun h => absurd rfl h.2.1⟩
    · rw [trim_segments hq, chop, if_neg (hsep.last he)]
      constructor
      · rintro ⟨p, hp, _, hctt⟩
        exact ⟨he, hq, p, hp, hctt⟩
      · rintro ⟨_, _, p, hp, hctt⟩
        exact ⟨p, hp, hsep.parts p (mem_of_getLast? hp), hctt⟩
  · rw [segments_withEntity hsep.entity he, getLast?_append, getLast?_singleton,
      some_or]
    constructor
    · rintro ⟨p, hp, hkey, _⟩
      rw [← Option.some.inj hp, isPrefixOf_key_append] at hkey
      cases hkey
    · exact fun h => absurd h.1 he

end Query

section Delivered

variable {r : Request} {c s : RequestTable} {now : Int}

/-- The callback of the receiving side is called with what was sent, and with the target without the
default port. -/
def RequestDelivered (c s : RequestTable) (now : Int) (r : Request) : Prop :=
  (hnd_request s now (c.sentRequest r.method r.reqEntity r.target.text r.ctt r.cttType)).map (·.2) =
    some ⟨r.method, r.reqEntity, r.target.normal.text, r.ctt, r.cttType, c.newDiaTid⟩

theorem methodOfCode_code (method : Method) : methodOfCode method.code = some method := by
  cases method <;> rfl

theorem code_lt (method : Method) : method.code < 256 := by
  cases method <;> decide

/-- **What the receiving side does** with a request that fits. -/
theorem hnd_request_sent (h : r.Fits c.newDiaTid) :
    (hnd_request s now (c.sentRequest r.method r.reqEntity r.target.text r.ctt r.cttType)).map (·.2) =
      (s.requestSlot now c.newCoapTid).bind fun _ =>
        (visit RequestOptions.handle r.ctt ⟨"", none, [], ⟨[], [], [], []⟩, []⟩
          (r.options c.newDiaTid)).map fun o => ⟨r.method, o.reqEntity, o.target,
            if r.method = .post ∨ r.method = .put then r.ctt else [],
            if r.method = .post ∨ r.method = .put then o.cttType else "", o.token.getD 0⟩ := by
  rw [sentRequest_eq, requestMessage_eq_layout h, hnd_request, messageCode_layout (code_lt _),
    messageId_layout (newCoapTid_lt c), read_layout h.encodable h.options, methodOfCode_code]
  cases s.requestSlot now c.newCoapTid with
  | none => rfl
  | some slot =>
    cases visit RequestOptions.handle r.ctt ⟨"", none, [], ⟨[], [], [], []⟩, []⟩
      (r.options c.newDiaTid) <;> rfl

/-- **The requests that arrive as they were sent**: no port is given, or the one that survives being
added to the default port; the path has no slash at its ends; the query comes behind a path and has
no separator at its ends; no part of it has the key of the entity, and the entity no separator; and
no content behind a query alone makes the key complete. -/
structure Request.Deliverable (r : Request) : Prop where
  port : ∀ n ∈ r.target.port, n = 44056
  path : ∀ p ∈ r.target.path, p ≠ [] ∧ p.head? ≠ some 47 ∧ p.getLast? ≠ some 47
  query : ∀ q ∈ r.target.query, r.target.path ≠ none ∧ q ≠ []
  separable : Separable (r.target.query.getD []) r.reqEntity
  content : r.reqEntity = [] → ∀ q ∈ r.target.query, ∀ p ∈ (segments 38 q).getLast?,
    queryKey.isPrefixOf (p ++ r.ctt) = false

theorem not_overrun_iff (h : r.Fits c.newDiaTid)
    (hquery : ∀ q ∈ r.target.query, r.target.path ≠ none ∧ q ≠ [])
    (hsep : Separable (r.target.query.getD []) r.reqEntity) : ¬ Overrun r.queries r.ctt ↔
      (r.reqEntity = [] → ∀ q ∈ r.target.query, ∀ p ∈ (segments 38 q).getLast?,
        queryKey.isPrefixOf (p ++ r.ctt) = false) := by
  have hparts : r.target.parts.query = r.target.query.getD [] := by
    cases hq : r.target.query with
    | none => exact parts_query_of_none (Or.inr hq)
    | some q =>
      rw [parts_query_of_path h (hquery q hq).1, hq]
  rw [overrun_iff h hparts hsep]
  constructor
  · intro hnot he q hq p hp
    by_contra hkey
    obtain rfl : r.target.query.getD [] = q := by rw [hq]; rfl
    exact hnot ⟨he, (hquery _ hq).2, p, hp, eq_true_of_ne_false hkey⟩
  · rintro hall ⟨he, hne, p, hp, hkey⟩
    cases hq : r.target.query with
    | none =>
      rw [hq] at hne
      exact hne rfl
    | some q =>
      rw [hq] at hp
      rw [hall he q hq p hp] at hkey
      cases hkey

/-- A request that fits arrives as it was sent if and only if the receiving side has a slot for it
and the condition holds. -/
theorem requestDelivered_iff (h : r.Fits c.newDiaTid) : RequestDelivered c s now r ↔
    (s.requestSlot now c.newCoapTid).isSome ∧ r.Deliverable := by
  unfold RequestDelivered
  rw [hnd_request_sent h]
  cases hslot : s.requestSlot now c.newCoapTid with
  | none => exact ⟨fun hnone => absurd hnone.symm (some_ne_none _), fun hsome => by cases hsome.1⟩
  | some slot =>
    rw [bind_some, and_iff_right isSome_some]
    obtain ⟨hover, hnot⟩ := visit_options h (newDiaTid_lt c)
    have hbare : (if r.method = .post ∨ r.method = .put then r.ctt else []) = r.ctt ∧
        (if r.method = .post ∨ r.method = .put then r.cttType else "") = r.cttType := by
      cases hm : r.method with
      | get => exact ⟨(r.bare (Or.inl hm)).1.symm, (r.bare (Or.inl hm)).2.symm⟩
      | post | put => exact ⟨rfl, rfl⟩
      | delete => exact ⟨(r.bare (Or.inr hm)).1.symm, (r.bare (Or.inr hm)).2.symm⟩
    have hcollected : ((some (r.collected c.newDiaTid)).map fun o : RequestOptions =>
        RequestCallback.mk r.method o.reqEntity o.target
          (if r.method = .post ∨ r.method = .put then r.ctt else [])
          (if r.method = .post ∨ r.method = .put then o.cttType else "") (o.token.getD 0)) =
        some ⟨r.method, r.reqEntity, r.target.normal.text, r.ctt, r.cttType, c.newDiaTid⟩ ↔
        (r.collected c.newDiaTid).target = r.target.normal.text ∧ r.entityReceived = r.reqEntity := by
      rw [map_some, some_inj, RequestCallback.mk.injEq]
      constructor
      · exact fun heq => ⟨heq.2.2.1, heq.2.1⟩
      · exact fun heq => ⟨rfl, heq.2, heq.1, hbare.1, hbare.2, rfl⟩
    have hdelivered := hcollected.trans (and_congr_left' (target_eq_iff h))
    constructor
    · intro heq
      by_cases hov : Overrun r.queries r.ctt
      · rw [hover hov] at heq
        cases heq
      · rw [hnot hov] at heq
        obtain ⟨⟨hport, hpath, hquery⟩, hentity⟩ := hdelivered.mp heq
        obtain ⟨hq, hsep⟩ := (query_eq_iff h).mp ⟨hquery, hentity⟩
        exact ⟨(port_eq_iff r.target).mp hport, (path_eq_iff h).mp hpath, hq, hsep,
          (not_overrun_iff h hq hsep).mp hov⟩
    · intro hd
      rw [hnot ((not_overrun_iff h hd.query hd.separable).mpr hd.content)]
      obtain ⟨hquery, hentity⟩ := (query_eq_iff h).mpr ⟨hd.query, hd.separable⟩
      exact hdelivered.mpr ⟨⟨(port_eq_iff r.target).mpr hd.port, (path_eq_iff h).mpr hd.path, hquery⟩,
        hentity⟩

end Delivered

end Ong.MicroDia
