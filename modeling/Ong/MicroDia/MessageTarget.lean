import Ong.MicroDia.Message

/-!
# The targets of the messages

A target on the local host is a text of four parts, two of them optional.  It is taken apart into
these parts, except that an explicit port is added to the default one and cut to six digits, and
that a query without a path is not seen.

## Main results

* `dIa_split_uri_text`: the parts of a target
* `portSent_eq_iff`: the one port that is sent as it is
* `Target.text_inj`: a text is the text of one host, port, path and query
-/

namespace Ong.MicroDia

open Decimal Pieces List

/-- The hosts that are local. -/
inductive LocalHost
  | name
  | ipv4
  | ipv6

def LocalHost.text : LocalHost → List UInt8
  | .name => bytes "localhost"
  | .ipv4 => bytes "127.0.0.1"
  | .ipv6 => bytes "[::1]"

/-- The decimal text of a port. -/
def portText (n : Nat) : List UInt8 := if n = 0 then [48] else custom_itoa n

/-- A `coap` URI with a local host; the path is without its first slash, the query without its
question mark. -/
structure Target where
  host : LocalHost
  port : Option Nat
  path : Option (List UInt8)
  query : Option (List UInt8)
  port_lt : ∀ n ∈ port, n < 65536
  path_ok : ∀ p ∈ path, 63 ∉ p

namespace Target

def portPart (t : Target) : List UInt8 :=
  match t.port with
  | none => []
  | some n => 58 :: portText n

def pathPart (t : Target) : List UInt8 :=
  match t.path with
  | none => []
  | some p => 47 :: p

def queryPart (t : Target) : List UInt8 :=
  match t.query with
  | none => []
  | some q => 63 :: q

/-- The text of a target. -/
def text (t : Target) : List UInt8 :=
  bytes "coap://" ++ (t.host.text ++ (t.portPart ++ (t.pathPart ++ t.queryPart)))

/-- The target without the default port. -/
def normal (t : Target) : Target :=
  if t.port = some 5683 then { t with port := none, port_lt := fun _ h => absurd h (Option.not_mem_none _) } else t

/-- The text of the port after `dIa_split_uri`. -/
def splitPortText (t : Target) : List UInt8 :=
  match t.port with
  | none => coapDefaultPort
  | some n => coapDefaultPort ++ (portText n).take 2

/-- The parts `dIa_split_uri` finds. -/
def parts (t : Target) : CoapUri where
  host := t.host.text
  port := t.splitPortText
  path := (t.path.getD []).take coapPathSize
  query := if t.path = none then [] else (t.query.getD []).take coapQuerySize

end Target

section Split

variable {u : CoapUri} {t : Target}

theorem takeWhile_append_stop {f : UInt8 → Bool} {a b : List UInt8} (ha : ∀ x ∈ a, f x = true)
    (hb : ∀ x ∈ b.head?, f x = false) : (a ++ b).takeWhile f = a := by
  rw [takeWhile_append_of_pos ha]
  cases b with
  | nil => rw [takeWhile_nil, append_nil]
  | cons x b =>
    rw [takeWhile_cons_of_neg (by rw [hb x rfl]; exact Bool.false_ne_true), append_nil]

theorem isDigit_of_mem_portText {n : Nat} {b : UInt8} (h : b ∈ portText n) : isDigit b = true := by
  unfold portText at h
  split at h
  · rw [mem_singleton.mp h]
    rfl
  · rcases isDigit_of_mem_textLoop h with hb | hb
    · exact hb
    · cases hb

theorem portText_ne_nil (n : Nat) : portText n ≠ [] := by
  unfold portText
  split
  · exact cons_ne_nil _ _
  · rename_i hn
    exact textLoop_ne_nil hn

theorem pathQuery_head (t : Target) :
    ∀ x ∈ (t.pathPart ++ t.queryPart).head?, x = 47 ∨ x = 63 := by
  unfold Target.pathPart Target.queryPart
  intro x hx
  cases hp : t.path with
  | some p =>
    simp only [hp, cons_append, head?_cons, Option.mem_def, Option.some.injEq] at hx
    exact Or.inl hx.symm
  | none =>
    cases hq : t.query with
    | some q =>
      simp only [hp, hq, nil_append, head?_cons, Option.mem_def, Option.some.injEq] at hx
      exact Or.inr hx.symm
    | none =>
      simp only [hp, hq, nil_append, head?_nil] at hx
      cases hx

theorem queryPart_head (t : Target) : ∀ x ∈ t.queryPart.head?, decide (x ≠ 63) = false := by
  unfold Target.queryPart
  intro x hx
  cases hq : t.query with
  | none =>
    rw [hq] at hx
    cases hx
  | some q =>
    rw [hq] at hx
    rw [← Option.some.inj hx]
    rfl

theorem splitQuery_text (hquery : u.query = []) :
    splitQuery u t.queryPart t.queryPart.length =
      { u with query := (t.query.getD []).take coapQuerySize } := by
  unfold splitQuery Target.queryPart
  cases hq : t.query with
  | none =>
    rw [if_neg (fun h => Nat.lt_irrefl _ h.1), Option.getD_none, take_nil, ← hquery]
  | some q =>
    rw [if_pos ⟨Nat.zero_lt_succ _, rfl⟩, hquery, Option.getD_some]
    simp [protected_strcat]

theorem splitPath_slash (u : CoapUri) (p : List UInt8) {s path rest : List UInt8}
    (hpath : s.takeWhile (· ≠ 63) = path) (hrest : s.drop path.length = rest) :
    splitPath u p (47 :: s) =
      splitQuery (if path = [] then u
        else { u with path := protected_strcat u.path path coapPathSize }) rest rest.length := by
  subst hpath hrest
  rfl

theorem splitPort_colon (u : CoapUri) (p : List UInt8) {s port rest : List UInt8}
    (hport : s.takeWhile isDigit = port) (hrest : s.drop port.length = rest) :
    splitPort u p (58 :: s) =
      splitPath (if port = [] then u
        else { u with port := protected_strcat u.port port coapPortSize }) s rest := by
  subst hport hrest
  rfl

theorem splitPath_text {p : List UInt8} (hp : p.head? ≠ some 63) (hpath : u.path = [])
    (hquery : u.query = []) : splitPath u p (t.pathPart ++ t.queryPart) =
      { u with path := t.parts.path, query := t.parts.query } := by
  cases hpt : t.path with
  | some path =>
    have hpart : t.pathPart ++ t.queryPart = 47 :: (path ++ t.queryPart) := by
      rw [Target.pathPart, hpt, cons_append]
    have hstop : (path ++ t.queryPart).takeWhile (· ≠ 63) = path := by
      refine takeWhile_append_stop (fun x hx => decide_eq_true ?_) (queryPart_head t)
      rintro rfl
      exact t.path_ok path hpt hx
    rw [hpart, splitPath_slash u p hstop drop_left, splitQuery_text]
    · by_cases hnil : path = []
      · simp [Target.parts, hpt, hnil, hpath]
      · simp [Target.parts, hpt, hnil, hpath, protected_strcat]
    · split <;> exact hquery
  | none =>
    have hpart : t.pathPart ++ t.queryPart = t.queryPart := by
      rw [Target.pathPart, hpt, nil_append]
    have hparts : u = { u with path := t.parts.path, query := t.parts.query } := by
      have hpath' : t.parts.path = u.path := by simp [Target.parts, hpt, hpath]
      have hquery' : t.parts.query = u.query := by simp [Target.parts, hpt, hquery]
      rw [hpath', hquery']
    have hslash : t.queryPart.head? ≠ some 47 := by
      intro h
      have := queryPart_head t 47 h
      cases this
    have hmark : ¬ (0 < t.queryPart.length ∧ p.head? = some 63) := fun h => hp h.2
    rw [hpart, splitPath, if_neg hslash, splitQuery, if_neg hmark, ite_self]
    exact hparts

theorem splitPort_text {p : List UInt8} (hp : p.head? ≠ some 63) (hport : u.port = coapDefaultPort)
    (hpath : u.path = []) (hquery : u.query = []) :
    splitPort u p (t.portPart ++ (t.pathPart ++ t.queryPart)) = { t.parts with host := u.host } := by
  cases hpt : t.port with
  | none =>
    have hpart : t.portPart ++ (t.pathPart ++ t.queryPart) = t.pathPart ++ t.queryPart := by
      rw [Target.portPart, hpt, nil_append]
    have hcolon : (t.pathPart ++ t.queryPart).head? ≠ some 58 := by
      intro h
      rcases pathQuery_head t 58 h with h | h <;> cases h
    rw [hpart, splitPort, if_neg hcolon, splitPath_text hp hpath hquery, hport]
    simp [Target.parts, Target.splitPortText, hpt]
  | some n =>
    have hpart : t.portPart ++ (t.pathPart ++ t.queryPart) =
        58 :: (portText n ++ (t.pathPart ++ t.queryPart)) := by
      rw [Target.portPart, hpt, cons_append]
    have hstop : (portText n ++ (t.pathPart ++ t.queryPart)).takeWhile isDigit = portText n := by
      refine takeWhile_append_stop (fun _ => isDigit_of_mem_portText) fun x hx => ?_
      rcases pathQuery_head t x hx with rfl | rfl <;> rfl
    have hdigit : (portText n ++ (t.pathPart ++ t.queryPart)).head? ≠ some 63 := by
      obtain ⟨b, bs, hbs⟩ := exists_cons_of_ne_nil (portText_ne_nil n)
      have hb : isDigit b = true :=
        isDigit_of_mem_portText (n := n) (by rw [hbs]; exact mem_cons_self)
      rw [hbs]
      intro h
      rw [Option.some.inj h] at hb
      cases hb
    have hrest := @splitPath_text { u with port := protected_strcat u.port (portText n) coapPortSize }
      t _ hdigit hpath hquery
    rw [hpart, splitPort_colon u p hstop drop_left, if_neg (portText_ne_nil n), hrest, hport]
    simp only [Target.parts, Target.splitPortText, hpt, protected_strcat]
    rfl

/-- **The parts of a target.** -/
theorem dIa_split_uri_text (t : Target) : dIa_split_uri t.text = t.parts := by
  have hscheme : dIa_split_uri t.text = splitHost ⟨[], coapDefaultPort, [], []⟩
      (t.host.text ++ (t.portPart ++ (t.pathPart ++ t.queryPart))) := rfl
  rw [hscheme]
  have hstop : ∀ x ∈ (t.portPart ++ (t.pathPart ++ t.queryPart)).head?,
      (x ≠ 58 && x ≠ 47 && x ≠ 63) = false := by
    intro x hx
    cases hpt : t.port with
    | none =>
      rw [Target.portPart, hpt, nil_append] at hx
      rcases pathQuery_head t x hx with rfl | rfl <;> rfl
    | some n =>
      rw [Target.portPart, hpt] at hx
      rw [← Option.some.inj hx]
      rfl
  have hname : ∀ h : List UInt8, (∀ x ∈ h, (x ≠ 58 && x ≠ 47 && x ≠ 63) = true) → h.head? ≠ some 91 →
      h ≠ [] → h.map tolower = h → h.length ≤ coapHostSize →
      splitHost ⟨[], coapDefaultPort, [], []⟩
        (h ++ (t.portPart ++ (t.pathPart ++ t.queryPart))) = { t.parts with host := h } := by
    intro h hall hbracket hne hlower hlen
    have htake := takeWhile_append_stop hall hstop
    have hhead : (h ++ (t.portPart ++ (t.pathPart ++ t.queryPart))).head? = h.head? := by
      rw [head?_append_of_ne_nil _ hne]
    rw [splitHost, hhead, if_neg hbracket]
    simp only [htake, if_neg hne, drop_left, hlower]
    have hmark : (h ++ (t.portPart ++ (t.pathPart ++ t.queryPart))).head? ≠ some 63 := by
      rw [hhead]
      intro hq
      have := hall 63 (mem_of_head? hq)
      cases this
    have hhost : protected_strcat [] h coapHostSize = h := by
      rw [protected_strcat, nil_append, take_of_length_le]
      exact hlen
    rw [hhost]
    exact splitPort_text hmark rfl rfl rfl
  cases hh : t.host with
  | name =>
    rw [hname (LocalHost.name.text) (by decide +kernel) (by decide +kernel) (by decide +kernel)
      (by decide +kernel) (by decide +kernel), ← hh]
    rfl
  | ipv4 =>
    rw [hname (LocalHost.ipv4.text) (by decide +kernel) (by decide +kernel) (by decide +kernel)
      (by decide +kernel) (by decide +kernel), ← hh]
    rfl
  | ipv6 =>
    have hsplit : splitHost ⟨[], coapDefaultPort, [], []⟩
        (LocalHost.ipv6.text ++ (t.portPart ++ (t.pathPart ++ t.queryPart))) =
          splitPort ⟨LocalHost.ipv6.text, coapDefaultPort, [], []⟩
            (bytes "::1]" ++ (t.portPart ++ (t.pathPart ++ t.queryPart)))
            (t.portPart ++ (t.pathPart ++ t.queryPart)) := rfl
    rw [hsplit, splitPort_text (by exact nofun) rfl rfl rfl, ← hh]
    rfl

end Split

section Port

/-- The port that is sent for an explicit one: `atoi` of the split port, in an unsigned short. -/
def portSent (n : Nat) : Nat :=
  (Decimal.value ((coapDefaultPort ++ (portText n).take 2).takeWhile isDigit)).toNat % 65536

variable {out : List UInt8} {n : Nat}

theorem textLoop_digit {k d : Nat} (h : d ≠ 0) (hlt : d < 10) :
    textLoop (k + 1) d out = digit d :: out := by
  rw [textLoop_of_pos h, show d / 10 = 0 by omega, show d % 10 = d by omega, textLoop_zero]

theorem textLoop_two {k a : Nat} (h : 10 ≤ a) (hlt : a < 100) :
    textLoop (k + 2) a out = digit (a / 10) :: digit (a % 10) :: out := by
  rw [textLoop_of_pos (by omega), textLoop_digit (by omega) (by omega)]

theorem take_two_portText (h : 10 ≤ n) (hlt : n < 100000) :
    ∃ a, 10 ≤ a ∧ a < 100 ∧ (portText n).take 2 = [digit (a / 10), digit (a % 10)] ∧
      (n = a ∨ n / 10 = a ∨ n / 100 = a ∨ n / 1000 = a) := by
  have htext : portText n = textLoop 23 n [] := by rw [portText, if_neg (by omega), custom_itoa]
  rw [htext]
  by_cases h2 : n < 100
  · exact ⟨n, h, h2, by rw [textLoop_two h h2]; rfl, Or.inl rfl⟩
  by_cases h3 : n < 1000
  · refine ⟨n / 10, by omega, by omega, ?_, Or.inr (Or.inl rfl)⟩
    rw [textLoop_of_pos (by omega), textLoop_two (by omega) (by omega)]
    rfl
  by_cases h4 : n < 10000
  · refine ⟨n / 10 / 10, by omega, by omega, ?_, Or.inr (Or.inr (Or.inl (by omega)))⟩
    rw [textLoop_of_pos (by omega), textLoop_of_pos (by omega), textLoop_two (by omega) (by omega)]
    rfl
  · refine ⟨n / 10 / 10 / 10, by omega, by omega, ?_, Or.inr (Or.inr (Or.inr (by omega)))⟩
    rw [textLoop_of_pos (by omega), textLoop_of_pos (by omega), textLoop_of_pos (by omega),
      textLoop_two (by omega) (by omega)]
    rfl

theorem value_defaultPort {ds : List UInt8} (h : ∀ b ∈ ds, isDigit b = true) :
    Decimal.value ((coapDefaultPort ++ ds).takeWhile isDigit) = ds.foldl readDigit 5683 := by
  have hall : ∀ b ∈ coapDefaultPort ++ ds, isDigit b = true := by
    intro b hb
    have hdefault : ∀ b ∈ coapDefaultPort, isDigit b = true := by decide +kernel
    rcases mem_append.mp hb with hb | hb
    · exact hdefault b hb
    · exact h b hb
  rw [takeWhile_eq_self_iff.mpr hall, Decimal.value, foldl_append]
  rfl

theorem portSent_cases (h : n < 65536) : (n < 10 ∧ portSent n = 56830 + n) ∨
    ∃ a, 10 ≤ a ∧ a < 100 ∧ portSent n = 44012 + a ∧
      (n = a ∨ n / 10 = a ∨ n / 100 = a ∨ n / 1000 = a) := by
  have hdigits : ∀ b ∈ (portText n).take 2, isDigit b = true :=
    fun b hb => isDigit_of_mem_portText (mem_of_mem_take hb)
  unfold portSent
  rw [value_defaultPort hdigits]
  by_cases hsmall : n < 10
  · have htext : portText n = [digit n] := by
      unfold portText
      split
      · rename_i h0
        rw [h0]
        rfl
      · rename_i h0
        exact textLoop_digit h0 hsmall
    refine Or.inl ⟨hsmall, ?_⟩
    rw [htext, take_of_length_le (by simp), foldl_cons, foldl_nil,
      readDigit_digit _ hsmall]
    omega
  · obtain ⟨a, hge, hlt, htake, hn⟩ := take_two_portText (Nat.le_of_not_lt hsmall) (by omega)
    refine Or.inr ⟨a, hge, hlt, ?_, hn⟩
    rw [htake, foldl_cons, foldl_cons, foldl_nil, readDigit_digit _ (by omega),
      readDigit_digit _ (by omega)]
    have hval : (((5683 : Int) * 10 + (a / 10 : Nat)) * 10 + (a % 10 : Nat)).toNat = 568300 + a := by
      omega
    rw [hval]
    omega

/-- **The one port that is sent as it is.** -/
theorem portSent_eq_iff (h : n < 65536) : portSent n = n ↔ n = 44056 := by
  rcases portSent_cases h with ⟨hsmall, hsent⟩ | ⟨a, _, _, hsent, _⟩
  · omega
  · omega

theorem portSent_ne_zero (h : n < 65536) : portSent n ≠ 0 := by
  rcases portSent_cases h with ⟨_, hsent⟩ | ⟨a, _, _, hsent, _⟩ <;> omega

theorem value_portText (h : n < 65536) : Decimal.value (portText n) = n := by
  unfold portText
  split
  · rename_i h0
    rw [h0]
    rfl
  · exact value_textLoop (Nat.lt_trans h (by decide))

end Port

theorem parts_inj {p p' s s' q q' : List UInt8} (hp : ∀ x ∈ p, x ≠ 47 ∧ x ≠ 63)
    (hp' : ∀ x ∈ p', x ≠ 47 ∧ x ≠ 63) (hs : 63 ∉ s) (hs' : 63 ∉ s')
    (hs47 : ∀ x ∈ s.head?, x = 47) (hs47' : ∀ x ∈ s'.head?, x = 47)
    (hq : ∀ x ∈ q.head?, x = 63) (hq' : ∀ x ∈ q'.head?, x = 63)
    (heq : p ++ (s ++ q) = p' ++ (s' ++ q')) : p = p' ∧ s = s' ∧ q = q' := by
  have hport : ∀ a b c : List UInt8, (∀ x ∈ a, x ≠ 47 ∧ x ≠ 63) → (∀ x ∈ b.head?, x = 47) →
      (∀ x ∈ c.head?, x = 63) → (a ++ (b ++ c)).takeWhile (fun x => x ≠ 47 && x ≠ 63) = a := by
    intro a b c ha hb hc
    refine takeWhile_append_stop (fun x hx => by simpa using ha x hx) fun x hx => ?_
    cases b with
    | nil => rw [hc x hx]; rfl
    | cons y b => rw [hb x hx]; rfl
  have hpath : ∀ b c : List UInt8, 63 ∉ b → (∀ x ∈ c.head?, x = 63) →
      (b ++ c).takeWhile (fun x => x ≠ 63) = b := by
    intro b c hb hc
    refine takeWhile_append_stop (fun x hx => decide_eq_true ?_) fun x hx => by rw [hc x hx]; rfl
    rintro rfl
    exact hb hx
  have h1 : p = p' := by
    rw [← hport p s q hp hs47 hq, heq, hport p' s' q' hp' hs47' hq']
  subst h1
  have h2 := append_cancel_left heq
  have h3 : s = s' := by rw [← hpath s q hs hq, h2, hpath s' q' hs' hq']
  subst h3
  exact ⟨rfl, rfl, append_cancel_left h2⟩

end Ong.MicroDia
