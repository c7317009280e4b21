import Mathlib

/-!
# Variables in texts

`rtl_evalPath2` copies a text and puts in the values of variables.  Two forms of a variable are
intended, `${name}` and `$(name)`; the test for the second one looks for `$)`.

## Main results

* `rtl_evalPath2_of_lt`, `lgmax_le_of_rtl_evalPath2`: the loop spells up to the limit
* `spelled_eq_expand_iff`: for which texts it spells the expansion
* `rtl_evalPath2_iff`: what is evaluated rightly
-/

namespace Ong.Rtbase

open List Option

def dollar : UInt8 := 0x24
def openBrace : UInt8 := 0x7b
def closeBrace : UInt8 := 0x7d
def openParen : UInt8 := 0x28
def closeParen : UInt8 := 0x29

/-! ## The function -/

def rtl_isIn (c : UInt8) (lst : List UInt8) : Bool := lst.contains c

/-- `rtl_skipto`: the characters that are skipped. -/
def rtl_skipto (inp stop : List UInt8) : List UInt8 := inp.takeWhile fun c => !rtl_isIn c stop

/-- One turn of the loop: the uninitialised pointer is followed, the loop is left, a variable with
the number of characters up to its end, or a character is copied. -/
inductive Turn
  | wild
  | stop
  | var (name : List UInt8) (consumed : Nat) (ptskip : List UInt8)
  | copy
  deriving DecidableEq

/-- The branch of a variable, from where the name begins. -/
def readVariable (ptskip inp : List UInt8) (start : Nat) : Turn :=
  let name := rtl_skipto inp ptskip
  match inp.drop name.length with
  | [] => .stop
  | ptin :: _ =>
    let l : Int32 := Int32.ofNat name.length + 1
    if l ≤ 0 ∨ 128 ≤ l then .stop
    else
      .var (name.take (l.toInt.toNat - 1))
        (start + name.length + if ptin = dollar then 0 else 1) ptskip

/-- The turn at a character, with the characters behind it. -/
def turn (ptskip : Option (List UInt8)) (c : UInt8) (inp : List UInt8) : Turn :=
  if c = dollar ∧ (inp.head? = some openBrace ∨ inp.head? = some closeParen) then
    if inp.head? = some openBrace then readVariable [closeBrace] inp.tail 1
    else if inp.head? = some openParen then readVariable [closeParen] inp.tail 1
    else
      match ptskip with
      | none => .wild
      | some ptskip => readVariable ptskip inp 0
  else .copy

/-- `value`, an empty text for a null pointer. -/
def valueOf (fctvar : List UInt8 → Option (List UInt8)) (name : List UInt8) : List UInt8 :=
  (fctvar name).getD []

/-- `lgvalue` as far as there is room. -/
def lgvalue (value : List UInt8) (lg lgmax : Int32) : Int32 :=
  let lgvalue := Int32.ofNat value.length
  if 0 < lgvalue then if lgmax ≤ lg + lgvalue then lgmax - lg else lgvalue else 0

/-- The loop. -/
def evalLoop (fctvar : List UInt8 → Option (List UInt8)) (lgmax : Int32) :
    List UInt8 → List UInt8 → Int32 → Option (List UInt8) → Option (List UInt8)
  | [], out, _, _ => some out
  | c :: inp, out, lg, ptskip =>
    if lg < lgmax then
      match turn ptskip c inp with
      | .wild => none
      | .stop => some out
      | .var name consumed ptskip =>
        evalLoop fctvar lgmax (inp.drop consumed)
          (out ++ (valueOf fctvar name).take (lgvalue (valueOf fctvar name) lg lgmax).toInt.toNat)
          (lg + lgvalue (valueOf fctvar name) lg lgmax) (some ptskip)
      | .copy => evalLoop fctvar lgmax inp (out ++ [c]) (lg + 1) ptskip
    else some out
termination_by inp => inp.length
decreasing_by
  · rw [List.length_drop, List.length_cons]
    omega
  · exact Nat.lt_succ_self _

/-- `rtl_evalPath2`: what is in `out` in front of the terminator. -/
def rtl_evalPath2 (inp : List UInt8) (lgmax : Int32)
    (fctvar : List UInt8 → Option (List UInt8)) : Option (List UInt8) :=
  evalLoop fctvar lgmax inp [] 0 none

/-! ## What it is for -/

/-- The name in front of a delimiter, if it is short, and the number of characters up to it. -/
def nameBefore (close : UInt8) (inp : List UInt8) : Option (List UInt8 × Nat) :=
  let name := inp.takeWhile (· ≠ close)
  if name.length < inp.length ∧ name.length < 127 then some (name, name.length + 2) else none

/-- A variable behind a `$`. -/
def variableAt (inp : List UInt8) : Option (List UInt8 × Nat) :=
  if inp.head? = some openBrace then nameBefore closeBrace inp.tail
  else if inp.head? = some openParen then nameBefore closeParen inp.tail
  else none

/-- The text with every `${name}` and `$(name)` replaced. -/
def expand (value : List UInt8 → List UInt8) : List UInt8 → List UInt8
  | [] => []
  | c :: inp =>
    match if c = dollar then variableAt inp else none with
    | some (name, consumed) => value name ++ expand value (inp.drop consumed)
    | none => c :: expand value inp
termination_by inp => inp.length
decreasing_by
  · rw [List.length_drop, List.length_cons]
    omega
  · exact Nat.lt_succ_self _

/-- No more than `lgmax` bytes are written, the terminator counted, and what fits is the
expansion. -/
def EvaluatedRightly (inp : List UInt8) (lgmax : Int32)
    (fctvar : List UInt8 → Option (List UInt8)) : Prop :=
  ∃ out, rtl_evalPath2 inp lgmax fctvar = some out ∧ (out.length : Int) + 1 ≤ lgmax.toInt ∧
    (((expand (valueOf fctvar) inp).length : Int) + 1 ≤ lgmax.toInt →
      out = expand (valueOf fctvar) inp)

/-! ## What the turns spell -/

/-- What is copied of a value, whose length is an `int`, if there is room. -/
def copied (value : List UInt8) : List UInt8 :=
  value.take (Int32.ofNat value.length).toInt.toNat

/-- What the turns spell without a limit. -/
def spelledByTurns (value : List UInt8 → List UInt8) :
    List UInt8 → Option (List UInt8) → Option (List UInt8)
  | [], _ => some []
  | c :: inp, ptskip =>
    match turn ptskip c inp with
    | .wild => none
    | .stop => some []
    | .var name consumed ptskip =>
      (spelledByTurns value (inp.drop consumed) (some ptskip)).map (copied (value name) ++ ·)
    | .copy => (spelledByTurns value inp ptskip).map (c :: ·)
termination_by inp => inp.length
decreasing_by
  · rw [List.length_drop, List.length_cons]
    omega
  · exact Nat.lt_succ_self _

/-- A text in which every `${` begins a variable, and in which there is neither a `$)` nor a
variable of the other form. -/
inductive Regular : List UInt8 → Prop
  | nil : Regular []
  | var {name rest : List UInt8} (hshort : name.length < 127) (hfree : closeBrace ∉ name)
    (hrest : Regular rest) : Regular (dollar :: openBrace :: (name ++ closeBrace :: rest))
  | copy {c : UInt8} {rest : List UInt8} (hbrace : c = dollar → rest.head? ≠ some openBrace)
    (hparen : c = dollar → rest.head? ≠ some closeParen)
    (hvariable : c = dollar → variableAt rest = none) (hrest : Regular rest) : Regular (c :: rest)

section Limit

variable {fctvar : List UInt8 → Option (List UInt8)} {lgmax lg : Int32}
  {inp out out' text : List UInt8} {ptskip : Option (List UInt8)} {k : Nat}

theorem length_copied (value : List UInt8) :
    (copied value).length = (Int32.ofNat value.length).toInt.toNat := by
  have hofNat : (Int32.ofNat value.length).toInt = (value.length : Int).bmod (2 ^ 32) :=
    Int32.toInt_ofNat'
  rw [copied, length_take, hofNat, Int.bmod_def]
  split <;> omega

theorem lgvalue_spec (value : List UInt8) (hlg : lg.toInt = k) (hlt : lg < lgmax) :
    (k + ((copied value).length : Int) < lgmax.toInt →
      value.take (lgvalue value lg lgmax).toInt.toNat = copied value ∧
        (lg + lgvalue value lg lgmax).toInt = k + (copied value).length) ∧
    (lgmax.toInt ≤ k + ((copied value).length : Int) →
      lgmax.toInt ≤ k + ((value.take (lgvalue value lg lgmax).toInt.toNat).length : Int)) := by
  have hlen := length_copied value
  have hmax := lgmax.toInt_lt
  have hle : (copied value).length ≤ value.length := by
    rw [copied, length_take]
    omega
  rw [Int32.lt_iff_toInt_lt] at hlt
  rw [lgvalue]
  by_cases hpos : 0 < Int32.ofNat value.length
  · have hpos' : 0 < (Int32.ofNat value.length).toInt := by
      rwa [Int32.lt_iff_toInt_lt, Int32.toInt_zero] at hpos
    have hsum : (lg + Int32.ofNat value.length).toInt =
        (lg.toInt + (Int32.ofNat value.length).toInt).bmod (2 ^ 32) := Int32.toInt_add _ _
    simp only [hpos, if_true, Int32.le_iff_toInt_le]
    constructor
    · intro hroom
      have hsum' : (lg + Int32.ofNat value.length).toInt = k + (copied value).length := by
        rw [hsum, Int.bmod_eq_of_le (by omega) (by omega)]
        omega
      rw [if_neg (by omega)]
      exact ⟨rfl, hsum'⟩
    · intro hfull
      split
      · have hsub : (lgmax - lg).toInt = lgmax.toInt - lg.toInt := by
          rw [Int32.toInt_sub, Int.bmod_eq_of_le (by omega) (by omega)]
        rw [hsub, length_take]
        omega
      · show lgmax.toInt ≤ k + ((copied value).length : Int)
        exact hfull
  · have hzero : (Int32.ofNat value.length).toInt ≤ 0 := by
      rw [Int32.lt_iff_toInt_lt, Int32.toInt_zero] at hpos
      omega
    have hnil : (copied value).length = 0 := by omega
    simp only [hpos, if_false]
    rw [hnil, length_eq_zero_iff.mp hnil, Int32.add_zero]
    exact ⟨fun _ => ⟨rfl, by omega⟩, fun hfull => by omega⟩

theorem length_le_of_evalLoop (h : evalLoop fctvar lgmax inp out lg ptskip = some out') :
    out.length ≤ out'.length := by
  fun_induction evalLoop fctvar lgmax inp out lg ptskip with
  | case1 | case3 | case6 => rw [Option.some.inj h]
  | case2 => cases h
  | case4 c inp out lg ptskip hlt name consumed ptskip' hturn ih =>
    have hlen := ih h
    rw [length_append] at hlen
    omega
  | case5 c inp out lg ptskip hlt hturn ih =>
    have hlen := ih h
    rw [length_append] at hlen
    omega

theorem toInt_succ (hlg : lg.toInt = k) (hlt : lg < lgmax) : (lg + 1).toInt = (k + 1 : Nat) := by
  have hmax := lgmax.toInt_lt
  rw [Int32.lt_iff_toInt_lt] at hlt
  rw [Int32.toInt_add, show (1 : Int32).toInt = 1 from rfl, hlg,
    Int.bmod_eq_of_le (by omega) (by omega)]
  omega

/-- **What fits is what the turns spell.** -/
theorem evalLoop_of_lt (out : List UInt8) (lg : Int32) (hlg : lg.toInt = out.length)
    (hspelled : spelledByTurns (valueOf fctvar) inp ptskip = some text)
    (hlt : (out.length + text.length : Int) < lgmax.toInt) :
    evalLoop fctvar lgmax inp out lg ptskip = some (out ++ text) := by
  fun_induction evalLoop fctvar lgmax inp out lg ptskip generalizing text with
  | case1 out lg ptskip =>
    rw [spelledByTurns] at hspelled
    rw [← Option.some.inj hspelled, append_nil]
  | case2 c inp out lg ptskip hroom hturn =>
    rw [spelledByTurns, hturn] at hspelled
    cases hspelled
  | case3 c inp out lg ptskip hroom hturn =>
    rw [spelledByTurns, hturn] at hspelled
    rw [← Option.some.inj hspelled, append_nil]
  | case4 c inp out lg ptskip hroom name consumed ptskip' hturn ih =>
    rw [spelledByTurns, hturn] at hspelled
    obtain ⟨rest, hrest, rfl⟩ := map_eq_some_iff.mp hspelled
    rw [length_append] at hlt
    obtain ⟨hvalue, hlg'⟩ := (lgvalue_spec (valueOf fctvar name) hlg hroom).1 (by omega)
    have hout : (out ++ (valueOf fctvar name).take
          (lgvalue (valueOf fctvar name) lg lgmax).toInt.toNat).length =
        out.length + (copied (valueOf fctvar name)).length := by
      rw [hvalue, length_append]
    rw [ih (by rw [hout, hlg']; rfl) hrest (by rw [hout]; omega), hvalue, append_assoc]
  | case5 c inp out lg ptskip hroom hturn ih =>
    rw [spelledByTurns, hturn] at hspelled
    obtain ⟨rest, hrest, rfl⟩ := map_eq_some_iff.mp hspelled
    rw [length_cons] at hlt
    have hout : (out ++ [c]).length = out.length + 1 := length_append
    rw [ih (by rw [hout, toInt_succ hlg hroom]) hrest (by rw [hout]; omega), append_assoc]
    rfl
  | case6 c inp out lg ptskip hroom =>
    rw [Int32.lt_iff_toInt_lt] at hroom
    omega

/-- **What does not fit reaches the limit.** -/
theorem lgmax_le_of_evalLoop (out : List UInt8) (lg : Int32) (hlg : lg.toInt = out.length)
    (hfull : ∀ text, spelledByTurns (valueOf fctvar) inp ptskip = some text →
      lgmax.toInt ≤ out.length + text.length)
    (h : evalLoop fctvar lgmax inp out lg ptskip = some out') : lgmax.toInt ≤ out'.length := by
  fun_induction evalLoop fctvar lgmax inp out lg ptskip with
  | case1 out lg ptskip =>
    have hle := hfull [] (by rw [spelledByTurns])
    rw [← Option.some.inj h]
    exact hle
  | case2 => cases h
  | case3 c inp out lg ptskip hroom hturn =>
    have hle := hfull [] (by rw [spelledByTurns, hturn])
    rw [← Option.some.inj h]
    exact hle
  | case4 c inp out lg ptskip hroom name consumed ptskip' hturn ih =>
    have hspec := lgvalue_spec (valueOf fctvar name) hlg hroom
    have hlen := length_le_of_evalLoop h
    by_cases hlt : out.length + ((copied (valueOf fctvar name)).length : Int) < lgmax.toInt
    · obtain ⟨hvalue, hlg'⟩ := hspec.1 hlt
      have hout : (out ++ (valueOf fctvar name).take
          (lgvalue (valueOf fctvar name) lg lgmax).toInt.toNat).length =
        out.length + (copied (valueOf fctvar name)).length := by
        rw [hvalue, length_append]
      refine ih (by rw [hout, hlg']; rfl) (fun text htext => ?_) h
      have hle := hfull (copied (valueOf fctvar name) ++ text) (by
        rw [spelledByTurns, hturn]
        exact map_eq_some_iff.mpr ⟨text, htext, rfl⟩)
      rw [length_append] at hle
      rw [hout]
      omega
    · rw [length_append] at hlen
      omega
  | case5 c inp out lg ptskip hroom hturn ih =>
    have hout : (out ++ [c]).length = out.length + 1 := length_append
    refine ih (by rw [hout, toInt_succ hlg hroom]) (fun text htext => ?_) h
    have hle := hfull (c :: text) (by
      rw [spelledByTurns, hturn]
      exact map_eq_some_iff.mpr ⟨text, htext, rfl⟩)
    rw [length_cons] at hle
    omega
  | case6 c inp out lg ptskip hroom =>
    rw [Int32.lt_iff_toInt_lt] at hroom
    rw [← Option.some.inj h]
    omega

end Limit

section Texts

variable {inp name rest : List UInt8} {ptskip : Option (List UInt8)} {c close : UInt8}
  {start consumed : Nat}

theorem rtl_skipto_singleton : rtl_skipto inp [close] = inp.takeWhile (· ≠ close) := by
  have heq : (fun c => !rtl_isIn c [close]) = fun c => decide (c ≠ close) := by
    funext c
    rw [rtl_isIn, contains_cons, contains_nil, Bool.or_false]
    by_cases h : c = close <;> simp [h]
  rw [rtl_skipto, heq]

theorem takeWhile_close (hfree : close ∉ name) :
    (name ++ close :: rest).takeWhile (· ≠ close) = name := by
  have hname : ∀ c ∈ name, decide (c ≠ close) = true := fun c hc =>
    decide_eq_true fun heq => hfree (heq ▸ hc)
  rw [takeWhile_append_of_pos hname, takeWhile_cons_of_neg (by simp), append_nil]

theorem nameBefore_eq_some_iff : nameBefore close inp = some (name, consumed) ↔
    ∃ rest, inp = name ++ close :: rest ∧ close ∉ name ∧ name.length < 127 ∧
      consumed = name.length + 2 := by
  rw [nameBefore]
  constructor
  · intro h
    split at h
    · next hname =>
      obtain ⟨rfl, rfl⟩ := Prod.mk.inj (Option.some.inj h)
      obtain ⟨hlt, hshort⟩ := hname
      have hsplit := takeWhile_append_dropWhile (p := fun c => decide (c ≠ close)) (l := inp)
      cases hdrop : inp.dropWhile fun c => decide (c ≠ close) with
      | nil =>
        rw [hdrop, append_nil] at hsplit
        rw [hsplit] at hlt
        exact absurd hlt (Nat.lt_irrefl _)
      | cons d rest =>
        have hd : d = close := by
          have hneg := head_dropWhile_not (fun c => decide (c ≠ close)) (l := inp) (by
            rw [hdrop]
            exact cons_ne_nil d rest)
          simp only [hdrop, head_cons, decide_eq_false_iff_not, not_not] at hneg
          exact hneg
        subst hd
        refine ⟨rest, by rw [← hdrop, hsplit], fun hmem => ?_, hshort, rfl⟩
        have hne := mem_takeWhile_imp hmem
        exact absurd rfl (of_decide_eq_true hne)
    · cases h
  · rintro ⟨rest, rfl, hfree, hshort, rfl⟩
    rw [takeWhile_close hfree, if_pos ⟨by simp, hshort⟩]

theorem readVariable_of_short (hfree : close ∉ name) (hshort : name.length < 127)
    (hclose : close ≠ dollar) : readVariable [close] (name ++ close :: rest) start =
      .var name (start + name.length + 1) [close] := by
  have hl : (Int32.ofNat name.length + 1 : Int32).toInt = name.length + 1 := by
    rw [Int32.toInt_add, Int32.toInt_ofNat_of_lt (by omega), show (1 : Int32).toInt = 1 from rfl,
      Int.bmod_eq_of_le (by omega) (by omega)]
  have hrange : ¬(Int32.ofNat name.length + 1 ≤ 0 ∨ 128 ≤ Int32.ofNat name.length + 1) := by
    rw [Int32.le_iff_toInt_le, Int32.le_iff_toInt_le, hl, Int32.toInt_zero,
      show (128 : Int32).toInt = 128 from rfl]
    omega
  have htake : (Int32.ofNat name.length + 1 : Int32).toInt.toNat - 1 = name.length := by
    omega
  simp only [readVariable, rtl_skipto_singleton, takeWhile_close hfree, drop_left, hrange,
    if_false, htake, take_length, hclose]

theorem readVariable_cases (ptskip inp : List UInt8) (start : Nat) :
    readVariable ptskip inp start = .stop ∨
      ∃ name consumed, readVariable ptskip inp start = .var name consumed ptskip := by
  rw [readVariable]
  dsimp only
  split
  · exact .inl rfl
  · split
    · exact .inl rfl
    · exact .inr ⟨_, _, rfl⟩

variable {value : List UInt8 → List UInt8}

theorem copied_of_lt {v : List UInt8} (h : v.length < 2 ^ 31) : copied v = v := by
  rw [copied, Int32.toInt_ofNat_of_lt h, Int.toNat_natCast, take_length]

theorem turn_variable (hfree : closeBrace ∉ name) (hshort : name.length < 127) :
    turn ptskip dollar (openBrace :: (name ++ closeBrace :: rest)) =
      .var name (name.length + 2) [closeBrace] := by
  rw [turn.eq_def, if_pos ⟨rfl, .inl rfl⟩, if_pos head?_cons, tail_cons,
    readVariable_of_short hfree hshort (by decide)]
  congr 1
  omega

theorem variableAt_brace (hfree : closeBrace ∉ name) (hshort : name.length < 127) :
    variableAt (openBrace :: (name ++ closeBrace :: rest)) = some (name, name.length + 2) := by
  exact nameBefore_eq_some_iff.mpr ⟨rest, rfl, hfree, hshort, rfl⟩

theorem drop_variable :
    (openBrace :: (name ++ closeBrace :: rest)).drop (name.length + 2) = rest := by
  rw [drop_succ_cons, ← drop_drop, drop_left]
  rfl

theorem turn_eq_copy_iff : turn ptskip c inp = .copy ↔
    (c = dollar → inp.head? ≠ some openBrace ∧ inp.head? ≠ some closeParen) := by
  rw [turn.eq_def]
  by_cases h : c = dollar ∧ (inp.head? = some openBrace ∨ inp.head? = some closeParen)
  · rw [if_pos h]
    refine iff_of_false ?_ fun hall => h.2.elim (hall h.1).1 (hall h.1).2
    have hread (p t : List UInt8) (k : Nat) : readVariable p t k ≠ .copy := fun heq => by
      rcases readVariable_cases p t k with hstop | ⟨name, consumed, hvariable⟩
      · rw [heq] at hstop
        cases hstop
      · rw [heq] at hvariable
        cases hvariable
    split
    · exact hread _ _ _
    · split
      · exact hread _ _ _
      · cases ptskip with
        | none => exact nofun
        | some ptskip => exact hread _ _ _
  · rw [if_neg h]
    exact iff_of_true rfl fun hc => not_or.mp fun hhead => h ⟨hc, hhead⟩

theorem Regular.spelled_eq (ptskip : Option (List UInt8)) (h : Regular inp)
    (hvalue : ∀ name, (value name).length < 2 ^ 31) :
    spelledByTurns value inp ptskip = some (expand value inp) := by
  induction h generalizing ptskip with
  | nil => rw [spelledByTurns, expand]
  | @var name rest hshort hfree hrest ih =>
    rw [spelledByTurns, turn_variable hfree hshort, expand, if_pos rfl,
      variableAt_brace hfree hshort]
    simp only [drop_variable, ih, copied_of_lt (hvalue name), map_some]
  | @copy c rest hbrace hparen hvariable hrest ih =>
    have hnone : (if c = dollar then variableAt rest else none) = none := by
      split
      · next hc => exact hvariable hc
      · rfl
    rw [spelledByTurns, turn_eq_copy_iff.mpr fun hc => ⟨hbrace hc, hparen hc⟩, expand, hnone]
    simp only [ih, map_some]

theorem variableAt_eq_none (hcopy : turn ptskip dollar inp ≠ .copy)
    (hvar : ¬∃ name rest, inp = openBrace :: (name ++ closeBrace :: rest) ∧ closeBrace ∉ name ∧
      name.length < 127) : variableAt inp = none := by
  have hhead : inp.head? = some openBrace ∨ inp.head? = some closeParen := by
    by_contra hnot
    obtain ⟨hbrace, hparen⟩ := not_or.mp hnot
    exact hcopy (turn_eq_copy_iff.mpr fun _ => ⟨hbrace, hparen⟩)
  rw [variableAt]
  rcases hhead with hbrace | hparen
  · obtain ⟨body, rfl⟩ := head?_eq_some_iff.mp hbrace
    cases hname : nameBefore closeBrace body with
    | none => exact hname
    | some found =>
      obtain ⟨name, consumed⟩ := found
      obtain ⟨rest, rfl, hfree, hshort, -⟩ := nameBefore_eq_some_iff.mp hname
      exact absurd ⟨name, rest, rfl, hfree, hshort⟩ hvar
  · rw [hparen, if_neg (by decide), if_neg (by decide)]

theorem regular_of_spelled_eq (n : Nat) (ptskip : Option (List UInt8)) (hlen : inp.length ≤ n)
    (h : ∀ value : List UInt8 → List UInt8, (∀ name, (value name).length < 2 ^ 31) →
      spelledByTurns value inp ptskip = some (expand value inp)) : Regular inp := by
  induction n generalizing inp ptskip with
  | zero =>
    obtain rfl := length_eq_zero_iff.mp (Nat.le_zero.mp hlen)
    exact .nil
  | succ n ih =>
    cases inp with
    | nil => exact .nil
    | cons c inp =>
      rw [length_cons] at hlen
      have hletter := h (fun _ => [0x78]) fun _ => by decide
      rw [spelledByTurns, expand] at hletter
      by_cases hcopy : turn ptskip c inp = .copy
      · rw [hcopy] at hletter
        have hhead := turn_eq_copy_iff.mp hcopy
        cases hfound : if c = dollar then variableAt inp else none with
        | some found =>
          have hc : c = dollar := by
            by_contra hc
            rw [if_neg hc] at hfound
            cases hfound
          rw [hfound] at hletter
          obtain ⟨text, -, htext⟩ := map_eq_some_iff.mp hletter
          have heq : c = 0x78 := (cons.inj htext).1
          rw [hc] at heq
          exact absurd heq (by decide)
        | none =>
          refine .copy (fun hc => (hhead hc).1) (fun hc => (hhead hc).2)
            (fun hc => by rwa [if_pos hc] at hfound) (ih ptskip (by omega) ?_)
          intro value hvalue
          have heq := h value hvalue
          rw [spelledByTurns, hcopy, expand, hfound] at heq
          obtain ⟨text, htext, hcons⟩ := map_eq_some_iff.mp heq
          rw [htext, (cons.inj hcons).2]
      · have hc : c = dollar := by
          by_contra hc
          exact hcopy (turn_eq_copy_iff.mpr fun hdollar => absurd hdollar hc)
        subst hc
        by_cases hvar : ∃ name rest, inp = openBrace :: (name ++ closeBrace :: rest) ∧
            closeBrace ∉ name ∧ name.length < 127
        · obtain ⟨name, rest, rfl, hfree, hshort⟩ := hvar
          have hrest : rest.length ≤ n := by
            rw [length_cons, length_append, length_cons] at hlen
            omega
          refine .var hshort hfree (ih (some [closeBrace]) hrest ?_)
          intro value hvalue
          have heq := h value hvalue
          rw [spelledByTurns, turn_variable hfree hshort, expand, if_pos rfl,
            variableAt_brace hfree hshort] at heq
          simp only [drop_variable, copied_of_lt (hvalue name)] at heq
          obtain ⟨text, htext, happend⟩ := map_eq_some_iff.mp heq
          rw [htext, append_cancel_left happend]
        · rw [if_pos rfl, variableAt_eq_none hcopy hvar] at hletter
          cases hturn : turn ptskip dollar inp with
          | wild | stop =>
            rw [hturn] at hletter
            cases hletter
          | copy => exact absurd hturn hcopy
          | var name consumed ptskip' =>
            rw [hturn] at hletter
            obtain ⟨text, -, htext⟩ := map_eq_some_iff.mp hletter
            exact absurd (cons.inj htext).1 (by decide)

/-- **For which texts the loop spells the expansion.** -/
theorem spelled_eq_expand_iff : (∀ value : List UInt8 → List UInt8,
    (∀ name, (value name).length < 2 ^ 31) →
      spelledByTurns value inp ptskip = some (expand value inp)) ↔ Regular inp :=
  ⟨regular_of_spelled_eq inp.length ptskip (Nat.le_refl _),
    fun h _ hvalue => h.spelled_eq ptskip hvalue⟩

end Texts

/-- When the variables are put in rightly, and for which texts the loop spells the expansion. -/
theorem rtl_evalPath2_iff (inp : List UInt8) (lgmax : Int32)
    (fctvar : List UInt8 → Option (List UInt8)) :
    (EvaluatedRightly inp lgmax fctvar ↔
      ∃ text, spelledByTurns (valueOf fctvar) inp none = some text ∧
      (text.length : Int) < lgmax.toInt ∧
      (((expand (valueOf fctvar) inp).length : Int) < lgmax.toInt →
        text = expand (valueOf fctvar) inp)) ∧
    ((∀ value : List UInt8 → List UInt8, (∀ name, (value name).length < 2 ^ 31) →
      spelledByTurns value inp none = some (expand value inp)) ↔ Regular inp) := by
  refine ⟨?_, spelled_eq_expand_iff⟩
  constructor
  · rintro ⟨out, hout, hlt, hexpand⟩
    have hspelled : ∃ text, spelledByTurns (valueOf fctvar) inp none = some text ∧
        (text.length : Int) < lgmax.toInt := by
      by_contra hnone
      have hle := lgmax_le_of_evalLoop [] 0 rfl (fun text htext => by
        by_contra hle
        exact hnone ⟨text, htext, by simpa using hle⟩) hout
      omega
    obtain ⟨text, htext, hroom⟩ := hspelled
    have hloop := evalLoop_of_lt [] 0 rfl htext (by simpa using hroom)
    obtain rfl := Option.some.inj (hloop.symm.trans hout)
    exact ⟨text, htext, hroom, fun hfits => hexpand (by omega)⟩
  · rintro ⟨text, htext, hroom, hexpand⟩
    have hloop := evalLoop_of_lt [] 0 rfl htext (by simpa using hroom)
    exact ⟨text, hloop, by omega, fun hfits => hexpand (by omega)⟩

/-- The terminator of a text that reaches the limit is outside; and `$(a)` is copied. -/
theorem not_evaluatedRightly_limit : ¬EvaluatedRightly [0x61] 1 (fun _ => none) ∧
    ¬EvaluatedRightly [dollar, openParen, 0x61, closeParen] 16 (fun _ => some [0x78]) := by
  have hlimit : rtl_evalPath2 [0x61] 1 (fun _ => none) = some [0x61] := by decide +kernel
  have hcopied : rtl_evalPath2 [dollar, openParen, 0x61, closeParen] 16 (fun _ => some [0x78]) =
      some [dollar, openParen, 0x61, closeParen] := by decide +kernel
  have hexpand : expand (valueOf fun _ => some [0x78]) [dollar, openParen, 0x61, closeParen] =
      [0x78] := by decide +kernel
  constructor
  · rintro ⟨out, hout, hlt, -⟩
    obtain rfl := Option.some.inj (hlimit.symm.trans hout)
    exact absurd hlt (by decide)
  · rintro ⟨out, hout, -, heq⟩
    obtain rfl := Option.some.inj (hcopied.symm.trans hout)
    rw [hexpand] at heq
    exact absurd (heq (by decide)) (by decide)

end Ong.Rtbase
