import Ong.MicroDia.MessageRequest

/-!
# What the receiving side reads in a request

The options of a request that fits are read one by one.  The parts of the query are read together
with what is behind them: the header of the next part, or the content of the message.

## Main results

* `visit_paths`, `visit_queries`: the path and the query
* `visit_options`: all options
-/

namespace Ong.MicroDia

open Decimal Pieces DeltaOptions RequestOptions List Option

section Bounded

variable {sep : UInt8} {acc part : List UInt8} {n : Nat}

theorem protected_strcat_of_le {dst src : List UInt8} (h : dst.length + src.length ≤ n) :
    protected_strcat dst src n = dst ++ src := by
  rw [protected_strcat, take_of_length_le (by omega)]

/-- A piece with its separator, as much of them as the size leaves room for. -/
def boundedGlue (sep : UInt8) (n : Nat) (acc part : List UInt8) : List UInt8 :=
  protected_strcat (if acc = [] then acc else protected_strcat acc [sep] n) part n

theorem boundedGlue_eq_glue (h : weight acc + (part.length + 1) ≤ n + 1) :
    boundedGlue sep n acc part = glue sep acc part := by
  unfold weight at h
  unfold boundedGlue glue
  by_cases hacc : acc = []
  · rw [if_pos hacc] at h
    rw [if_pos hacc, if_pos hacc, hacc, protected_strcat_of_le, nil_append]
    rw [length_nil]
    omega
  · rw [if_neg hacc] at h
    have hsep : protected_strcat acc [sep] n = acc ++ [sep] := by
      rw [protected_strcat_of_le]
      rw [length_singleton]
      omega
    rw [if_neg hacc, if_neg hacc, hsep, protected_strcat_of_le, append_assoc,
      singleton_append]
    rw [length_append, length_singleton]
    omega

end Bounded

section Options

variable {o : RequestOptions} {rest part : List UInt8} {parts : List (List UInt8)}

theorem handle_path (h : weight o.uri.path + (part.length + 1) ≤ coapPathSize + 1) :
    o.handle coapOptionUriPath part.length (part ++ rest) =
      some { o with uri.path := glue 47 o.uri.path part } := by
  have htake : (part ++ rest).take part.length = part := take_left
  rw [← boundedGlue_eq_glue h]
  show some { o with uri.path := boundedGlue 47 coapPathSize o.uri.path ((part ++ rest).take _) } = _
  rw [htake]

/-- The pieces of the path. -/
theorem visit_paths (h : weight o.uri.path + (parts.map (·.length + 1)).sum ≤ coapPathSize + 1) :
    visit handle rest o (parts.map fun arg => (coapOptionUriPath, arg)) =
      some { o with uri.path := parts.foldl (glue 47) o.uri.path } := by
  induction parts generalizing o with
  | nil => rfl
  | cons part parts ih =>
    rw [map_cons, sum_cons] at h
    have hglue := weight_glue_le 47 o.uri.path part
    rw [map_cons, visit, handle_path (by omega), bind_some, ih]
    · rfl
    · show weight (glue 47 o.uri.path part) + _ ≤ _
      omega

theorem isPrefixOf_append_stop {key : List UInt8} {b : UInt8} (hb : b ∉ key)
    (part rest : List UInt8) : key.isPrefixOf (part ++ b :: rest) = key.isPrefixOf part := by
  induction key generalizing part with
  | nil => simp
  | cons k key ih =>
    obtain ⟨hk, hkey⟩ := not_or.mp (mem_cons.not.mp hb)
    cases part with
    | nil => simp [isPrefixOf, Ne.symm hk]
    | cons c part => rw [cons_append, isPrefixOf, isPrefixOf, ih hkey]

theorem exists_query_header (part : List UInt8) (parts : List (List UInt8)) (ctt : List UInt8) :
    ∃ b s, b ∉ queryKey ∧ encode coapOptionUriQuery
      ((part :: parts).map fun arg => (coapOptionUriQuery, arg)) ++ ctt = b :: s := by
  have hsmall : ∀ k < 16, UInt8.ofNat k ∉ queryKey := by decide
  rw [map_cons, encode, encodeOne]
  split
  · rename_i hlen
    rw [Nat.sub_self, Nat.zero_mul, Nat.zero_add]
    exact ⟨_, _, hsmall part.length (by omega), rfl⟩
  · exact ⟨_, _, hsmall 15 (by omega), rfl⟩

theorem handle_uriQuery (o : RequestOptions) (part rest : List UInt8) :
    o.handle coapOptionUriQuery part.length (part ++ rest) =
      if queryKey.isPrefixOf (part ++ rest) then
        if part.length < 17 then none
        else some { o with reqEntity := protected_strcat o.reqEntity (part.drop 17) 400 }
      else some { o with uri.query := boundedGlue 38 coapQuerySize o.uri.query part } := by
  have htake : (part ++ rest).take part.length = part := take_left
  show (if queryKey.isPrefixOf (part ++ rest) then
      if part.length < 17 then none
      else some { o with reqEntity := protected_strcat o.reqEntity (((part ++ rest).take _).drop 17) 400 }
    else some { o with uri.query := boundedGlue 38 _ o.uri.query ((part ++ rest).take _) }) = _
  rw [htake]

theorem handle_query (hkey : queryKey.isPrefixOf (part ++ rest) = queryKey.isPrefixOf part)
    (hquery : weight o.uri.query + (part.length + 1) ≤ coapQuerySize + 1)
    (hentity : o.reqEntity.length + part.length ≤ 400) :
    o.handle coapOptionUriQuery part.length (part ++ rest) =
      some { o with
        uri.query := (splitPart (o.uri.query, o.reqEntity) part).1
        reqEntity := (splitPart (o.uri.query, o.reqEntity) part).2 } := by
  rw [handle_uriQuery, hkey, boundedGlue_eq_glue hquery]
  unfold splitPart
  cases hpart : queryKey.isPrefixOf part with
  | false => rfl
  | true =>
    have hlen : ¬ part.length < 17 := by
      have := (List.isPrefixOf_iff_prefix.mp hpart).length_le
      rw [length_queryKey] at this
      omega
    rw [if_pos rfl, if_neg hlen, if_pos rfl, protected_strcat_of_le]
    rw [length_drop]
    omega

/-- The last part of the query and the content begin with the key, but not the part alone. -/
def Overrun (parts : List (List UInt8)) (ctt : List UInt8) : Prop :=
  ∃ p ∈ parts.getLast?, queryKey.isPrefixOf p = false ∧ queryKey.isPrefixOf (p ++ ctt) = true

theorem handle_query_overrun (hkey : queryKey.isPrefixOf part = false)
    (hrest : queryKey.isPrefixOf (part ++ rest) = true) :
    o.handle coapOptionUriQuery part.length (part ++ rest) = none := by
  have hlen : part.length < 17 := by
    by_contra hge
    have hprefix := List.isPrefixOf_iff_prefix.mp hrest
    have hpart : queryKey <+: part := prefix_of_prefix_length_le hprefix
      (prefix_append part rest) (by rw [length_queryKey]; omega)
    rw [List.isPrefixOf_iff_prefix.mpr hpart] at hkey
    cases hkey
  rw [handle_uriQuery, if_pos hrest, if_pos hlen]

/-- The parts of the query: nothing comes out when the last one overruns. -/
theorem visit_queries {ctt : List UInt8}
    (hquery : weight o.uri.query + (parts.map (·.length + 1)).sum ≤ coapQuerySize + 1)
    (hentity : o.reqEntity.length + (parts.map (·.length + 1)).sum ≤ 400) :
    (Overrun parts ctt → visit handle ctt o
      (parts.map fun arg => (coapOptionUriQuery, arg)) = none) ∧
    (¬ Overrun parts ctt → visit handle ctt o
      (parts.map fun arg => (coapOptionUriQuery, arg)) = some { o with
        uri.query := (parts.foldl splitPart (o.uri.query, o.reqEntity)).1
        reqEntity := (parts.foldl splitPart (o.uri.query, o.reqEntity)).2 }) := by
  induction parts generalizing o with
  | nil => exact ⟨fun ⟨_, hp, _⟩ => absurd hp (not_mem_none _), fun _ => rfl⟩
  | cons part parts ih =>
    rw [map_cons, sum_cons] at hquery hentity
    cases parts with
    | nil =>
      have hvisit : visit handle ctt o [(coapOptionUriQuery, part)] =
          (o.handle coapOptionUriQuery part.length (part ++ ctt)).bind some := rfl
      rw [map_singleton, hvisit]
      constructor
      · rintro ⟨p, hp, hpart, hctt⟩
        have hlast : part = p := Option.some.inj hp
        subst hlast
        rw [handle_query_overrun hpart hctt, bind_none]
      · intro hover
        have hkey : queryKey.isPrefixOf (part ++ ctt) = queryKey.isPrefixOf part := by
          cases hpart : queryKey.isPrefixOf part with
          | true =>
            rw [List.isPrefixOf_iff_prefix] at hpart ⊢
            exact hpart.trans (prefix_append part ctt)
          | false =>
            by_contra hctt
            exact hover ⟨part, rfl, hpart, eq_true_of_ne_false hctt⟩
        rw [handle_query hkey (by omega) (by omega), bind_some]
        rfl
    | cons p ps =>
      obtain ⟨b, s, hb, hs⟩ := exists_query_header p ps ctt
      have hkey : queryKey.isPrefixOf (part ++ b :: s) = queryKey.isPrefixOf part :=
        isPrefixOf_append_stop hb part s
      have hover : Overrun (part :: p :: ps) ctt ↔ Overrun (p :: ps) ctt := by
        unfold Overrun
        rw [getLast?_cons_cons]
      rw [hover, map_cons, visit, hs, handle_query hkey (by omega) (by omega),
        bind_some]
      refine ih ?_ ?_
      · have hglue := weight_splitPart_le (o.uri.query, o.reqEntity) part
        show weight (splitPart (o.uri.query, o.reqEntity) part).1 + _ ≤ _
        simp only at hglue
        omega
      · have hlen := length_splitPart_le (o.uri.query, o.reqEntity) part
        show (splitPart (o.uri.query, o.reqEntity) part).2.length + _ ≤ _
        simp only at hlen
        omega

end Options

section Collected

variable {r : Request} {tid : Nat} {rest : List UInt8}

/-- The text of the port that arrives. -/
def Target.portReceived (t : Target) : List UInt8 :=
  match t.port with
  | none => []
  | some n => custom_itoa (portSent n)

/-- What the receiving side collects before the query. -/
def Request.collectedBefore (r : Request) (tid : Nat) : RequestOptions :=
  ⟨r.cttType, some tid, [], ⟨r.target.host.text, r.target.portReceived, r.paths.foldl (glue 47) [], []⟩,
    []⟩

/-- What the receiving side collects. -/
def Request.collected (r : Request) (tid : Nat) : RequestOptions :=
  { r.collectedBefore tid with
    uri.query := (r.queries.foldl splitPart ([], [])).1
    reqEntity := (r.queries.foldl splitPart ([], [])).2 }

theorem coap2dia_dia2coap_cttType :
    ∀ c ∈ contentTypes, c ≠ "" ∧ coap2dia_cttType (UInt8.ofNat (dia2coap_cttType c)).toNat = c := by
  decide

theorem visit_cttTypeOptions (r : Request) (rest : List UInt8) :
    visit handle rest ⟨"", none, [], ⟨[], [], [], []⟩, []⟩
      (cttTypeOptions r.cttType) = some ⟨r.cttType, none, [], ⟨[], [], [], []⟩, []⟩ := by
  rcases r.cttType_ok with htype | htype
  · rw [htype]
    rfl
  · obtain ⟨hne, hround⟩ := coap2dia_dia2coap_cttType _ htype
    rw [cttTypeOptions, if_neg hne]
    show some (RequestOptions.mk (coap2dia_cttType (UInt8.ofNat (dia2coap_cttType r.cttType)).toNat)
      none [] ⟨[], [], [], []⟩ []) = _
    rw [hround]

theorem portSent_lt (n : Nat) : portSent n < 65536 := Nat.mod_lt _ (by decide)

theorem visit_portOptions (t : Target) (o : RequestOptions) (rest : List UInt8)
    (h : o.uri.port = []) : visit handle rest o t.portOptions =
      some { o with uri.port := t.portReceived } := by
  unfold Target.portOptions Target.portReceived
  cases t.port with
  | none =>
    rw [← h]
    rfl
  | some n =>
    have hbytes : (UInt8.ofNat (portSent n / 256)).toNat * 256 +
        (UInt8.ofNat (portSent n % 256)).toNat = portSent n := by
      have := portSent_lt n
      rw [UInt8.toNat_ofNat', UInt8.toNat_ofNat']
      omega
    show some { o with uri.port := custom_itoa ((UInt8.ofNat (portSent n / 256)).toNat * 256 +
      (UInt8.ofNat (portSent n % 256)).toNat) } = _
    rw [hbytes]

theorem visit_host (host : LocalHost) (o : RequestOptions) (rest : List UInt8) (h : o.uri.host = []) :
    visit handle rest o [(coapOptionUriHost, host.text)] =
      some { o with uri.host := host.text } := by
  have hhost : protected_strcat o.uri.host ((host.text ++ rest).take host.text.length)
      coapHostSize = host.text := by
    rw [take_left, h, protected_strcat_of_le, nil_append]
    exact Nat.le_trans (Nat.add_le_add_left (length_host_le host) _) (by decide)
  show some { o with uri.host := protected_strcat o.uri.host (take _ (_ ++ rest)) _ } = _
  rw [hhost]

/-- **A transaction id that an `int` holds** is read as it was written. -/
theorem custom_atoi_custom_itoa (rest : List UInt8) (h : tid < 2 ^ 31) :
    custom_atoi (custom_itoa tid ++ rest) (custom_itoa tid).length = tid := by
  have hvalue : value (custom_itoa tid) = tid := value_textLoop (by omega)
  rw [custom_atoi, take_left, hvalue, Int.bmod_def]
  split <;> omega

theorem visit_token (o : RequestOptions) (rest : List UInt8) (h : tid < 2 ^ 31) :
    visit handle rest o [(coapOptionToken, custom_itoa tid)] =
      some { o with token := some tid } := by
  show some { o with token := some (custom_atoi (custom_itoa tid ++ rest) _) } = _
  rw [custom_atoi_custom_itoa rest h]

theorem visit_optionsBefore (h : r.Fits tid) (htid : tid < 2 ^ 31) (rest : List UInt8) :
    visit handle rest ⟨"", none, [], ⟨[], [], [], []⟩, []⟩ (r.optionsBefore tid) =
      some (r.collectedBefore tid) := by
  unfold Request.optionsBefore
  rw [visit_append _ 0, visit_append _ 0, visit_append _ 0, visit_append _ 0, visit_cttTypeOptions,
    bind_some, visit_host _ _ _ rfl, bind_some, visit_portOptions _ _ _ rfl,
    bind_some, visit_paths, bind_some, visit_token _ _ htid]
  · rfl
  · have := h.sum_paths_le
    rw [weight_nil]
    omega

/-- **What the receiving side collects**, unless the last part of the query overruns. -/
theorem visit_options (h : r.Fits tid) (htid : tid < 2 ^ 31) :
    (Overrun r.queries r.ctt → visit handle r.ctt
      ⟨"", none, [], ⟨[], [], [], []⟩, []⟩ (r.options tid) = none) ∧
    (¬ Overrun r.queries r.ctt → visit handle r.ctt
      ⟨"", none, [], ⟨[], [], [], []⟩, []⟩ (r.options tid) = some (r.collected tid)) := by
  unfold Request.options
  rw [visit_append _ 0, visit_optionsBefore h htid, bind_some]
  have hsum := h.sum_queries_le
  refine visit_queries ?_ ?_
  · show weight [] + _ ≤ _
    rw [weight_nil]
    omega
  · show length [] + _ ≤ _
    rw [length_nil]
    unfold coapQuerySize at hsum
    omega

end Collected

end Ong.MicroDia
