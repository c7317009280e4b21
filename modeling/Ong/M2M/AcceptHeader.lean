import Ong.Util.StringReader

/-!
# The header Accept

The media types that a request accepts are read from its header with their weights, and the one of
the supported types with the greatest weight is chosen.

## Main results

* `acceptLoop_of_error`, `acceptLoop_of_ok`, `acceptLoop_of_stuck`: the loop gives the elements
  their weights, one after the other
-/

namespace Ong.M2M

open List

open Util (JavaString StringReader Mask ParseException ch javaString)

variable {D : Type*}

/-- `double`: the numbers that texts write, if no `NumberFormatException` is thrown, and how numbers
compare. -/
structure Doubles (D : Type*) where
  valueOf : JavaString → Option D
  gt : D → D → Bool
  one : D
  minusOne : D

/-- The exceptions: those of the M2M layer, and others. -/
inductive Throwable
  | m2m (message : JavaString) (status : StatusCode)
  | parse
  | numberFormat
  | arrayIndexOutOfBounds
  deriving DecidableEq

/-- `mediaTypeToWeight` -/
abbrev Weights (D : Type*) := JavaString → Option D

def Weights.put (w : Weights D) (mediaType : JavaString) (d : D) : Weights D :=
  Function.update w mediaType (some d)

/-- `L_ACCEPT_STOP_1` and `H_ACCEPT_STOP_1` -/
def acceptStop1 : Mask := .ofChars (javaString " ,;")

/-- `L_ACCEPT_STOP_2` and `H_ACCEPT_STOP_2` -/
def acceptStop2 : Mask := .ofChars (javaString " =")

structure Param where
  name : JavaString
  value : JavaString

section Reading

variable (ds : Doubles D)

variable (reader : StringReader)

/-- One parameter, and the spaces after it. -/
def readParam : Except ParseException (Param × StringReader) :=
  let param := (reader.skip (ch ' ')).readUntil acceptStop2
  match (param.2.skip (ch ' ')).checkCurrentAndSkip (ch '=') with
  | .error e => .error e
  | .ok reader =>
    let value := (reader.skip (ch ' ')).readUntil acceptStop1
    .ok (⟨param.1, value.1⟩, value.2.skip (ch ' '))

/-- The character after a parameter. -/
def nextCurrent : UInt16 × StringReader :=
  match reader.rest with
  | [] => (ch '0', reader)
  | c :: rest => (c, { reader with rest })

/-- A weight is kept for the media type, and `added` is set. -/
def putParam (mediaType : JavaString) (p : Param) (s : Bool × Weights D) :
    Except Throwable (Bool × Weights D) :=
  if p.name = javaString "q" then
    match ds.valueOf p.value with
    | none => .error .numberFormat
    | some d => .ok (true, s.2.put mediaType d)
  else .ok s

/-- The variables of the inner loop. -/
structure ParamsState (D : Type*) where
  reader : StringReader
  current : UInt16
  added : Bool
  weights : Weights D

theorem readParam_lt {r r' : StringReader} {p : Param} (h : readParam r = .ok (p, r')) :
    r'.rest.length < r.rest.length := by
  simp only [readParam] at h
  split at h
  · cases h
  · next q hq =>
    obtain ⟨rest, hrest, rfl⟩ := StringReader.checkCurrentAndSkip_eq_ok hq
    cases h
    calc _ ≤ rest.length := (StringReader.length_skip_le.trans
          StringReader.length_readUntil_le).trans StringReader.length_skip_le
      _ < (ch '=' :: rest).length := Nat.lt_succ_self _
      _ = _ := (congrArg length hrest).symm
      _ ≤ r.rest.length := (StringReader.length_skip_le.trans
          StringReader.length_readUntil_le).trans StringReader.length_skip_le

theorem nextCurrent_le (r : StringReader) : (nextCurrent r).2.rest.length ≤ r.rest.length := by
  unfold nextCurrent
  split
  · exact Nat.le_refl _
  · next hrest => simp [hrest]

/-- The inner loop. -/
def paramsLoop (mediaType : JavaString) (s : ParamsState D) : Except Throwable (ParamsState D) :=
  if s.current = ch ';' then
    match _h : readParam s.reader with
    | .error _ => .error .parse
    | .ok (p, reader) =>
      match putParam ds mediaType p (s.added, s.weights) with
      | .error e => .error e
      | .ok put =>
        paramsLoop mediaType ⟨(nextCurrent reader).2, (nextCurrent reader).1, put.1, put.2⟩
  else .ok s
termination_by s.reader.rest.length
decreasing_by exact Nat.lt_of_le_of_lt (nextCurrent_le _) (readParam_lt ‹_›)

/-- The body of the outer loop. -/
def acceptBody (current : UInt16) (weights : Weights D) :
    Except Throwable (StringReader × UInt16 × Weights D) :=
  let mediaType := (reader.skip (ch ' ')).readUntil acceptStop1
  match mediaType.2.rest with
  | [] => .ok (mediaType.2, current, weights.put mediaType.1 ds.one)
  | c :: _ =>
    let reader := if c = ch ' ' then mediaType.2.skip (ch ' ') else mediaType.2
    match reader.rest with
    | [] => .ok (reader, c, weights.put mediaType.1 ds.one)
    | c :: rest =>
      match paramsLoop ds mediaType.1 ⟨{ reader with rest }, c, false, weights⟩ with
      | .error e => .error e
      | .ok s =>
        if (s.reader.isTerminated || s.current = ch ',') && !s.added then
          .ok (s.reader, s.current, s.weights.put mediaType.1 ds.one)
        else .ok (s.reader, s.current, s.weights)

/-- The outer loop, for at most so many rounds. -/
def acceptLoop : Nat → StringReader → UInt16 → Weights D → Option (Except Throwable (Weights D))
  | 0, _, _, _ => none
  | n + 1, reader, current, weights =>
    match acceptBody ds reader current weights with
    | .error e => some (.error e)
    | .ok (reader, current, weights) =>
      if current = ch ',' then acceptLoop n reader current weights else some (.ok weights)

/-- What is thrown for a header that cannot be parsed. -/
def badAccept (accept : JavaString) : Throwable :=
  .m2m (javaString "Cannot parse accept header: " ++ accept) .badRequest

/-- `extractAccept`, with so many rounds for its loop. -/
def extractAccept (n : Nat) (accept : JavaString) : Option (Except Throwable (Weights D)) :=
  match acceptLoop ds n (.ofMessage accept) (ch '0') (fun _ => none) with
  | some (.error .parse) => some (.error (badAccept accept))
  | result => result

end Reading

/-! ## The elements of a header -/

/-- Where an element ends: the header ends with the range, or after something else of the element;
or there is a comma, or another character, maybe the last. -/
inductive Finish
  | bare | ended | comma | other (last : Bool)
  deriving DecidableEq

/-- The range and the parameters; there is nothing in the place of one that cannot be read. -/
structure Element where
  range : JavaString
  params : List (Option Param)
  finish : Finish

/-- The end of an element at a character. -/
def finishAt (c : UInt16) (rest : JavaString) : Finish :=
  if c = ch ',' then .comma else .other rest.isEmpty

/-- The parameters after a semicolon. -/
def lexParams (r : StringReader) : List (Option Param) × Finish × StringReader :=
  match _h : readParam r with
  | .error _ => ([none], .ended, r)
  | .ok (p, r') =>
    if r'.rest = [] then ([some p], .ended, r')
    else if (nextCurrent r').1 = ch ';' then
      (some p :: (lexParams (nextCurrent r').2).1, (lexParams (nextCurrent r').2).2)
    else ([some p], finishAt (nextCurrent r').1 (nextCurrent r').2.rest, (nextCurrent r').2)
termination_by r.rest.length
decreasing_by all_goals exact Nat.lt_of_le_of_lt (nextCurrent_le _) (readParam_lt ‹_›)

def lexElement (r : StringReader) : Element × StringReader :=
  let range := (r.skip (ch ' ')).readUntil acceptStop1
  if range.2.rest = [] then (⟨range.1, [], .bare⟩, range.2)
  else
    match (range.2.skip (ch ' ')).rest with
    | [] => (⟨range.1, [], .ended⟩, range.2.skip (ch ' '))
    | c :: rest =>
      if c = ch ';' then
        (⟨range.1, (lexParams { r with rest }).1, (lexParams { r with rest }).2.1⟩,
          (lexParams { r with rest }).2.2)
      else (⟨range.1, [], finishAt c rest⟩, { r with rest })

theorem lexParams_le (r : StringReader) : (lexParams r).2.2.rest.length ≤ r.rest.length := by
  fun_induction lexParams r with
  | case1 r e h => exact Nat.le_refl _
  | case2 r p r' h hrest => exact (readParam_lt h).le
  | case3 r p r' h hrest hc ih => exact ih.trans ((nextCurrent_le r').trans (readParam_lt h).le)
  | case4 r p r' h hrest hc => exact (nextCurrent_le r').trans (readParam_lt h).le

theorem lexElement_lt {r : StringReader} (h : (lexElement r).1.finish = .comma) :
    (lexElement r).2.rest.length < r.rest.length := by
  have hle : (((r.skip (ch ' ')).readUntil acceptStop1).2.skip (ch ' ')).rest.length ≤
      r.rest.length :=
    StringReader.length_skip_le.trans
      (StringReader.length_readUntil_le.trans StringReader.length_skip_le)
  unfold lexElement at h ⊢
  generalize (r.skip (ch ' ')).readUntil acceptStop1 = range at h hle ⊢
  by_cases hnil : range.2.rest = []
  · simp [hnil] at h
  · simp only [if_neg hnil] at h ⊢
    cases hrest : (range.2.skip (ch ' ')).rest with
    | nil => simp [hrest] at h
    | cons c rest =>
      rw [hrest, length_cons] at hle
      dsimp only
      split
      · exact Nat.lt_of_le_of_lt (lexParams_le _) hle
      · exact hle

/-- The elements of a header, as far as it is read. -/
def lex (r : StringReader) : List Element :=
  if _h : (lexElement r).1.finish = .comma then (lexElement r).1 :: lex (lexElement r).2
  else [(lexElement r).1]
termination_by r.rest.length
decreasing_by exact lexElement_lt ‹_›

section Loops

variable (ds : Doubles D)

/-- What one parameter makes of the weights; one that cannot be read throws an exception. -/
def putRead (range : JavaString) (s : Bool × Weights D) :
    Option Param → Except Throwable (Bool × Weights D)
  | none => .error .parse
  | some p => putParam ds range p s

/-- Whether the range gets a weight without the parameter. -/
def Finish.closes : Finish → Bool
  | .other last => last
  | _ => true

/-- What an element adds to the weights. -/
def Element.weigh (e : Element) (weights : Weights D) : Except Throwable (Weights D) :=
  match e.params.foldlM (putRead ds e.range) (false, weights) with
  | .error x => .error x
  | .ok (added, weights) =>
    .ok (if e.finish.closes && !added then weights.put e.range ds.one else weights)

/-- What comes of the elements: the loop does not end if after a comma the header ends with a
range. -/
def weighAll : List Element → UInt16 → Weights D → Option (Except Throwable (Weights D))
  | [], _, weights => some (.ok weights)
  | e :: es, current, weights =>
    match e.weigh ds weights with
    | .error x => some (.error x)
    | .ok weights =>
      if e.finish = .comma then weighAll es (ch ',') weights
      else if e.finish = .bare ∧ current = ch ',' then none
      else some (.ok weights)

variable {ds} {r r' : StringReader} {m : JavaString} {added : Bool} {w w' : Weights D} {p : Param}
  {current : UInt16} {x : Throwable} {s : Bool × Weights D} {e : Element} {es : List Element}

/-- The character and the reader that an end leaves. -/
structure Finish.Leaves (f : Finish) (current : UInt16) (r : StringReader) : Prop where
  ne_bare : f ≠ .bare
  comma : current = ch ',' ↔ f = .comma
  closes : (r.isTerminated || current = ch ',') = f.closes

theorem leaves_finishAt (c : UInt16) (message rest : JavaString) :
    (finishAt c rest).Leaves c ⟨message, rest⟩ := by
  unfold finishAt
  split
  · next hc => exact ⟨by decide, ⟨fun _ => rfl, fun _ => hc⟩, by simp [hc, Finish.closes]⟩
  · next hc =>
    exact ⟨by simp, by simp [hc], by simp [hc, Finish.closes, StringReader.isTerminated]⟩

theorem lexParams_of_read (hread : readParam r = .ok (p, r')) :
    lexParams r = if r'.rest = [] then ([some p], .ended, r')
      else if (nextCurrent r').1 = ch ';' then
        (some p :: (lexParams (nextCurrent r').2).1, (lexParams (nextCurrent r').2).2)
      else ([some p], finishAt (nextCurrent r').1 (nextCurrent r').2.rest, (nextCurrent r').2) := by
  rw [lexParams]
  split
  · next hread' => cases hread.symm.trans hread'
  · next hread' =>
    cases hread.symm.trans hread'
    rfl

theorem paramsLoop_of_ne {s : ParamsState D} (h : s.current ≠ ch ';') :
    paramsLoop ds m s = .ok s := by
  rw [paramsLoop, if_neg h]

theorem paramsLoop_of_read_error {e : ParseException} (hread : readParam r = .error e) :
    paramsLoop ds m ⟨r, ch ';', added, w⟩ = .error .parse := by
  rw [paramsLoop, if_pos rfl]
  split
  · rfl
  · next hread' => cases hread.symm.trans hread'

theorem paramsLoop_of_read (hread : readParam r = .ok (p, r')) :
    paramsLoop ds m ⟨r, ch ';', added, w⟩ =
      match putParam ds m p (added, w) with
      | .error e => .error e
      | .ok s => paramsLoop ds m ⟨(nextCurrent r').2, (nextCurrent r').1, s.1, s.2⟩ := by
  rw [paramsLoop, if_pos rfl]
  split
  · next hread' => cases hread.symm.trans hread'
  · next hread' =>
    cases hread.symm.trans hread'
    rfl

theorem foldlM_cons_some (ps : List (Option Param)) :
    (some p :: ps).foldlM (putRead ds m) s =
      match putParam ds m p s with
      | .error x => .error x
      | .ok s => ps.foldlM (putRead ds m) s := by
  rw [foldlM_cons, putRead]
  cases putParam ds m p s <;> rfl

theorem paramsLoop_spec (ds : Doubles D) (m : JavaString) (r : StringReader) (added : Bool)
    (w : Weights D) :
    match (lexParams r).1.foldlM (putRead ds m) (added, w) with
    | .error x => paramsLoop ds m ⟨r, ch ';', added, w⟩ = .error x
    | .ok s => ∃ current, (lexParams r).2.1.Leaves current (lexParams r).2.2 ∧
      paramsLoop ds m ⟨r, ch ';', added, w⟩ = .ok ⟨(lexParams r).2.2, current, s.1, s.2⟩ := by
  fun_induction lexParams r generalizing added w with
  | case1 r e hread => exact paramsLoop_of_read_error hread
  | case2 r p r' hread hrest =>
    have hnext : nextCurrent r' = (ch '0', r') := by rw [nextCurrent, hrest]
    have hleaves : Finish.ended.Leaves (ch '0') r' :=
      ⟨by decide, by decide, by rw [StringReader.isTerminated, hrest]; rfl⟩
    rw [foldlM_cons_some, paramsLoop_of_read hread, hnext]
    cases putParam ds m p (added, w) with
    | error x => rfl
    | ok s => exact ⟨ch '0', hleaves, paramsLoop_of_ne (show ch '0' ≠ ch ';' by decide)⟩
  | case3 r p r' hread hrest hc ih =>
    rw [foldlM_cons_some, paramsLoop_of_read hread, hc]
    cases putParam ds m p (added, w) with
    | error x => rfl
    | ok s => exact ih s.1 s.2
  | case4 r p r' hread hrest hc =>
    rw [foldlM_cons_some, paramsLoop_of_read hread]
    cases putParam ds m p (added, w) with
    | error x => rfl
    | ok s => exact ⟨(nextCurrent r').1, leaves_finishAt _ _ _, paramsLoop_of_ne hc⟩

/-- **The body of the loop** gives one element its weight, or throws what the element throws. -/
theorem acceptBody_spec (ds : Doubles D) (r : StringReader) (current : UInt16) (w : Weights D) :
    match (lexElement r).1.weigh ds w with
    | .error x => acceptBody ds r current w = .error x
    | .ok w' => ∃ current', acceptBody ds r current w = .ok ((lexElement r).2, current', w') ∧
      (current' = ch ',' ↔ (lexElement r).1.finish = .comma ∨
        (lexElement r).1.finish = .bare ∧ current = ch ',') := by
  obtain ⟨m, r', hrange⟩ : ∃ m r', (r.skip (ch ' ')).readUntil acceptStop1 = (m, r') := ⟨_, _, rfl⟩
  obtain ⟨message, rest⟩ := r'
  obtain rfl : r.message = message := congrArg (fun x => x.2.message) hrange
  simp only [acceptBody, lexElement, hrange]
  cases rest with
  | nil =>
    refine ⟨current, rfl, fun h => .inr ⟨rfl, h⟩, ?_⟩
    rintro (h | h)
    · cases h
    · exact h.2
  | cons c rest =>
    have hskip : (if c = ch ' ' then StringReader.skip ⟨r.message, c :: rest⟩ (ch ' ')
        else ⟨r.message, c :: rest⟩) = StringReader.skip ⟨r.message, c :: rest⟩ (ch ' ') := by
      split
      · rfl
      · next hc => rw [StringReader.skip, dropWhile_cons_of_neg (by simpa using hc)]
    dsimp only
    rw [if_neg (cons_ne_nil _ _), hskip]
    cases hrest : (StringReader.skip ⟨r.message, c :: rest⟩ (ch ' ')).rest with
    | nil =>
      have hc : c ≠ ch ',' := by
        rintro rfl
        rw [StringReader.skip, dropWhile_cons_of_neg (by decide)] at hrest
        cases hrest
      exact ⟨c, rfl, fun h => absurd h hc, by simp⟩
    | cons c' rest' =>
      dsimp only
      by_cases hc' : c' = ch ';'
      · have hloop := paramsLoop_spec ds m ⟨r.message, rest'⟩ false w
        rw [hc', if_pos rfl, Element.weigh]
        cases hput : (lexParams ⟨r.message, rest'⟩).1.foldlM (putRead ds m) (false, w) with
        | error x =>
          rw [hput] at hloop
          rw [StringReader.skip, hloop]
        | ok s =>
          rw [hput] at hloop
          obtain ⟨current', hleaves, hloop⟩ := hloop
          rw [StringReader.skip, hloop]
          dsimp only
          refine ⟨current', ?_, by simp [hleaves.comma, hleaves.ne_bare]⟩
          rw [hleaves.closes]
          split <;> rfl
      · have hleaves := leaves_finishAt c' r.message rest'
        rw [if_neg hc', Element.weigh, StringReader.skip, paramsLoop_of_ne hc']
        refine ⟨c', ?_, by simp [hleaves.comma, hleaves.ne_bare]⟩
        dsimp only
        rw [hleaves.closes]
        split <;> rfl

section Rounds

variable {n n' : Nat} {o : Except Throwable (Weights D)}

theorem acceptLoop_succ (ds : Doubles D) (n : Nat) (r : StringReader) (current : UInt16)
    (w : Weights D) : acceptLoop ds (n + 1) r current w =
      match (lexElement r).1.weigh ds w with
      | .error x => some (.error x)
      | .ok w' =>
        if (lexElement r).1.finish = .comma ∨ (lexElement r).1.finish = .bare ∧ current = ch ',' then
          acceptLoop ds n (lexElement r).2 (ch ',') w'
        else some (.ok w') := by
  have hbody := acceptBody_spec ds r current w
  rw [acceptLoop]
  cases hweigh : (lexElement r).1.weigh ds w with
  | error x =>
    rw [hweigh] at hbody
    rw [hbody]
  | ok w' =>
    rw [hweigh] at hbody
    obtain ⟨current', hbody, hcurrent⟩ := hbody
    rw [hbody]
    dsimp only
    by_cases hc : current' = ch ','
    · rw [if_pos hc, if_pos (hcurrent.mp hc), hc]
    · rw [if_neg hc, if_neg (mt hcurrent.mpr hc)]

theorem rest_of_bare (h : (lexElement r).1.finish = .bare) :
    (lexElement r).2.rest = [] ∧ (lexElement r).1.params = [] := by
  have hparams : ∀ r, (lexParams r).2.1 ≠ .bare := fun r => by
    fun_induction lexParams r with
    | case1 | case2 => exact nofun
    | case3 r p r' hread hrest hc ih => exact ih
    | case4 => exact (leaves_finishAt _ [] _).ne_bare
  unfold lexElement at h ⊢
  dsimp only at h ⊢
  split_ifs at h ⊢ with hrest
  · exact ⟨hrest, rfl⟩
  · split at h
    · cases h
    · next c rest _ =>
      split_ifs at h
      · exact absurd h (hparams _)
      · exact absurd h (leaves_finishAt c [] rest).ne_bare

theorem acceptLoop_nil (hrest : r.rest = []) : acceptLoop ds n r (ch ',') w = none := by
  induction n generalizing r w with
  | zero => rfl
  | succ n ih =>
    have hrange : ((r.skip (ch ' ')).readUntil acceptStop1).2.rest = [] := by
      rw [StringReader.readUntil, StringReader.skip, hrest]
      rfl
    simp only [acceptLoop, acceptBody, hrange, if_true]
    exact ih hrange

/-- **The loop** gives the elements their weights, one after the other. -/
theorem acceptLoop_spec (ds : Doubles D) (r : StringReader) (current : UInt16) (w : Weights D)
    (hn : (lex r).length ≤ n) :
    acceptLoop ds n r current w = weighAll ds (lex r) current w := by
  fun_induction lex r generalizing n w current with
  | case1 r hcomma ih =>
    obtain ⟨n, rfl⟩ := Nat.exists_eq_add_of_le' (Nat.lt_of_lt_of_le (Nat.succ_pos _) hn)
    rw [acceptLoop_succ, weighAll]
    simp only [hcomma, true_or, if_true]
    split
    · rfl
    · exact ih _ _ (Nat.le_of_succ_le_succ hn)
  | case2 r hcomma =>
    obtain ⟨n, rfl⟩ := Nat.exists_eq_add_of_le' (Nat.lt_of_lt_of_le (Nat.succ_pos _) hn)
    rw [acceptLoop_succ, weighAll]
    simp only [hcomma, false_or, if_false]
    split
    · rfl
    · split
      · next hbare => exact acceptLoop_nil (rest_of_bare hbare.1).1
      · rfl

theorem acceptLoop_of_le (h : acceptLoop ds n r current w = some o) (hle : n ≤ n') :
    acceptLoop ds n' r current w = some o := by
  induction n generalizing n' r current w with
  | zero => cases h
  | succ n ih =>
    obtain ⟨n', rfl⟩ := Nat.exists_eq_add_of_le' hle
    rw [← Nat.add_assoc]
    rw [acceptLoop] at h ⊢
    split at h
    · exact h
    · split_ifs at h ⊢
      · exact ih h (Nat.le_add_left n n')
      · exact h

/-- **What comes of the loop** is what comes of the elements. -/
theorem acceptLoop_eq_some : (∃ n, acceptLoop ds n r current w = some o) ↔
    weighAll ds (lex r) current w = some o := by
  constructor
  · rintro ⟨n, h⟩
    rw [← acceptLoop_spec ds r current w (Nat.le_max_right n _)]
    exact acceptLoop_of_le h (Nat.le_max_left _ _)
  · exact fun h => ⟨_, (acceptLoop_spec ds r current w (Nat.le_refl _)).trans h⟩

end Rounds

section Thrown

variable (ds)

/-- The weights that are read are numbers. -/
def Numbers (ps : List (Option Param)) : Prop :=
  ∀ p, some p ∈ ps → p.name = javaString "q" → (ds.valueOf p.value).isSome

/-- After a comma the header ends with a range. -/
def Stuck (current : UInt16) (es : List Element) : Prop :=
  (current = ch ',' ∨ 2 ≤ es.length) ∧ es.getLast?.map Element.finish = some .bare

variable {ds} {ps : List (Option Param)} {range : JavaString}

theorem numbers_cons : Numbers ds (some p :: ps) ↔
    (p.name = javaString "q" → (ds.valueOf p.value).isSome) ∧ Numbers ds ps := by
  simp [Numbers, or_imp, forall_and]

theorem putParam_spec (ds : Doubles D) (range : JavaString) (p : Param) (s : Bool × Weights D) :
    if p.name = javaString "q" → (ds.valueOf p.value).isSome then
      ∃ s', putParam ds range p s = .ok s'
    else putParam ds range p s = .error .numberFormat := by
  unfold putParam
  by_cases hq : p.name = javaString "q"
  · cases hd : ds.valueOf p.value <;> simp [hq]
  · simp [hq]

theorem foldlM_of_numbers (h : Numbers ds ps) (s : Bool × Weights D) :
    (∃ s', ps.foldlM (putRead ds range) s = .ok s') ∨
      none ∈ ps ∧ ps.foldlM (putRead ds range) s = .error .parse := by
  induction ps generalizing s with
  | nil => exact .inl ⟨s, rfl⟩
  | cons p ps ih =>
    cases p with
    | none => exact .inr ⟨mem_cons_self, rfl⟩
    | some p =>
      obtain ⟨hp, hps⟩ := numbers_cons.mp h
      have hput := putParam_spec ds range p s
      rw [if_pos hp] at hput
      obtain ⟨s', hs'⟩ := hput
      rw [foldlM_cons_some, hs']
      exact (ih hps s').imp_right fun h => ⟨mem_cons_of_mem _ h.1, h.2⟩

theorem foldlM_of_not_numbers (h : ¬Numbers ds (some p :: ps))
    (hps : ¬Numbers ds ps → ∀ s, ps.foldlM (putRead ds range) s = .error .numberFormat) :
    (some p :: ps).foldlM (putRead ds range) s = .error .numberFormat := by
  have hput := putParam_spec ds range p s
  rw [foldlM_cons_some]
  split_ifs at hput with hp
  · obtain ⟨s', hs'⟩ := hput
    rw [hs']
    exact hps (fun h' => h (numbers_cons.mpr ⟨hp, h'⟩)) s'
  · rw [hput]

theorem numbers_nil : Numbers ds [] := fun _ h => absurd h not_mem_nil

theorem lexParams_of_not_numbers (h : ¬Numbers ds (lexParams r).1) :
    (lexParams r).1.foldlM (putRead ds range) s = .error .numberFormat := by
  fun_induction lexParams r generalizing s with
  | case1 => exact absurd (fun p hp => by simp at hp) h
  | case2 | case4 => exact foldlM_of_not_numbers h fun hnil => absurd numbers_nil hnil
  | case3 r p r' hread hrest hc ih => exact foldlM_of_not_numbers h fun hps _ => ih hps

theorem weigh_spec (ds : Doubles D) (r : StringReader) (w : Weights D) :
    (Numbers ds (lexElement r).1.params → (∃ w', (lexElement r).1.weigh ds w = .ok w') ∨
        (lexElement r).1.finish = .ended ∧ (lexElement r).1.weigh ds w = .error .parse) ∧
      (¬Numbers ds (lexElement r).1.params →
        (lexElement r).1.weigh ds w = .error .numberFormat) := by
  have hended : ∀ r, none ∈ (lexParams r).1 → (lexParams r).2.1 = .ended := fun r => by
    fun_induction lexParams r with
    | case1 => exact fun _ => rfl
    | case2 | case4 => simp
    | case3 r p r' hread hrest hc ih => simpa using ih
  have hparams : (lexElement r).1.params = [] ∨ ∃ r', (lexElement r).1.params = (lexParams r').1 ∧
      (lexElement r).1.finish = (lexParams r').2.1 := by
    unfold lexElement
    dsimp only
    split_ifs
    · exact .inl rfl
    · split
      · exact .inl rfl
      · split
        · exact .inr ⟨_, rfl, rfl⟩
        · exact .inl rfl
  rw [Element.weigh]
  constructor <;> intro hnumbers
  · rcases foldlM_of_numbers hnumbers (false, w) with ⟨s', hs'⟩ | ⟨hnone, herror⟩
    · rw [hs']
      exact .inl ⟨_, rfl⟩
    · rw [herror]
      refine .inr ⟨?_, rfl⟩
      rcases hparams with hnil | ⟨r', hps, hfinish⟩
      · rw [hnil] at hnone
        cases hnone
      · exact hfinish.trans (hended r' (hps ▸ hnone))
  · rcases hparams with hnil | ⟨r', hps, -⟩
    · exact absurd (hnil ▸ numbers_nil) hnumbers
    · rw [hps] at hnumbers ⊢
      rw [lexParams_of_not_numbers hnumbers]

theorem lex_ne_nil (r : StringReader) : lex r ≠ [] := by
  rw [lex]
  split <;> exact cons_ne_nil _ _

theorem stuck_cons (hes : es ≠ []) : Stuck current (e :: es) ↔ Stuck (ch ',') es := by
  have hlen := length_pos_iff.mpr hes
  obtain ⟨e', es, rfl⟩ := exists_cons_of_ne_nil hes
  exact and_congr_left fun _ =>
    ⟨fun _ => .inl rfl, fun _ => .inr (by rw [length_cons]; omega)⟩

/-- **A weight that is no number** is an exception, whatever else the header has. -/
theorem weighAll_of_not_numbers (h : ¬∀ e ∈ lex r, Numbers ds e.params) :
    weighAll ds (lex r) current w = some (.error .numberFormat) := by
  fun_induction lex r generalizing w current with
  | case1 r hcomma ih =>
    rw [weighAll]
    by_cases hhead : Numbers ds (lexElement r).1.params
    · rcases (weigh_spec ds r w).1 hhead with ⟨w', hw'⟩ | ⟨hended, -⟩
      · rw [hw']
        dsimp only
        rw [if_pos hcomma]
        exact ih fun htail => h (forall_mem_cons.mpr ⟨hhead, htail⟩)
      · cases hcomma.symm.trans hended
    · rw [(weigh_spec ds r w).2 hhead]
  | case2 r hcomma =>
    rw [weighAll, (weigh_spec ds r w).2 fun hhead => h (forall_mem_singleton.mpr hhead)]

/-- **If the weights are numbers**, the loop ends unless it is stuck. -/
theorem weighAll_of_numbers (current : UInt16) (w : Weights D)
    (h : ∀ e ∈ lex r, Numbers ds e.params) :
    (Stuck current (lex r) → weighAll ds (lex r) current w = none) ∧
      (¬Stuck current (lex r) → ∃ o, weighAll ds (lex r) current w = some o ∧
        (o = .error .parse ∨ ∃ w', o = .ok w')) := by
  fun_induction lex r generalizing w current with
  | case1 r hcomma ih =>
    obtain ⟨hhead, htail⟩ := forall_mem_cons.mp h
    simp only [stuck_cons (lex_ne_nil _), weighAll]
    rcases (weigh_spec ds r w).1 hhead with ⟨w', hw'⟩ | ⟨hended, -⟩
    · rw [hw']
      simp only [hcomma, if_true]
      exact ih _ _ htail
    · cases hcomma.symm.trans hended
  | case2 r hcomma =>
    have hstuck : Stuck current [(lexElement r).1] ↔
        (lexElement r).1.finish = .bare ∧ current = ch ',' := by
      simp [Stuck, and_comm]
    rw [weighAll, hstuck]
    rcases (weigh_spec ds r w).1 (h _ mem_cons_self) with ⟨w', hw'⟩ | ⟨hended, herror⟩
    · rw [hw']
      dsimp only
      rw [if_neg hcomma]
      exact ⟨fun hs => if_pos hs, fun hs => ⟨_, if_neg hs, .inr ⟨w', rfl⟩⟩⟩
    · rw [herror, hended]
      exact ⟨fun hs => (by cases hs.1), fun _ => ⟨_, rfl, .inl rfl⟩⟩

end Thrown

end Loops

section Choosing

variable (ds : Doubles D)

/-- The weight of a range, if there is one and it is greater than the best so far. -/
def greater (weights : Weights D) (bestWeight : D) (range : JavaString) : Option D :=
  match weights range with
  | none => none
  | some weight => if ds.gt weight bestWeight then some weight else none

def anyType : JavaString := javaString "*/*"

/-- One round of the loop over the supported types: the best weight and its media type. -/
def chooseStep (weights : Weights D) (s : D × Option JavaString) (t : JavaString) :
    D × Option JavaString :=
  match greater ds weights s.1 t with
  | some weight => (weight, some t)
  | none =>
    match t.findIdx? (· = ch '/') with
    | some index =>
      match greater ds weights s.1 (t.take (index + 1) ++ javaString "*") with
      | some weight => (weight, some t)
      | none =>
        match greater ds weights s.1 anyType with
        | some weight => (weight, some t)
        | none => s
    | none =>
      match greater ds weights s.1 anyType with
      | some weight => (weight, some t)
      | none => s

/-- `ArrayUtils.toString` -/
def arrayToString (array : List JavaString) (start stop separator : JavaString) : JavaString :=
  start ++ (array.intersperse separator).flatten ++ stop

/-- What is thrown if no media type is chosen. -/
def notAcceptable (types : List JavaString) : Throwable :=
  .m2m (javaString "Only following media types are supported: " ++
    arrayToString types (javaString "[ ") (javaString " ]") (javaString ", ")) .notAcceptable

/-- `getAcceptedMediaType`, with so many rounds for the loop that reads the header. -/
def getAcceptedMediaType (n : Nat) (accept : Option JavaString) (types : List JavaString) :
    Option (Except Throwable JavaString) :=
  match accept with
  | none =>
    match types with
    | [] => some (.error .arrayIndexOutOfBounds)
    | t :: _ => some (.ok t)
  | some accept =>
    match extractAccept ds n accept with
    | none => none
    | some (.error e) => some (.error e)
    | some (.ok weights) =>
      match (types.foldl (chooseStep ds weights) (ds.minusOne, none)).2 with
      | none => some (.error (notAcceptable types))
      | some t => some (.ok t)

end Choosing

end Ong.M2M
