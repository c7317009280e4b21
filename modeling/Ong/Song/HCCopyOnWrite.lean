import Mathlib.Data.List.Lex
import Mathlib.Data.Char
import Ong.Lib.Run
import Ong.Lib.TreeMap

/-!
# Messages that are copied when they are written

An `HC` holds the headers and the content of a message.  An `HCCopyOnWrite` reads the headers of
another message until the first operation that writes one, which copies them; the null field stands
for headers that are not copied yet.  The copy orders the names by their characters, whatever the
comparator of the message is, and the operations on the content write headers without a copy.

## Main results

* `copyHeaders_entries`: the copy has the entries of the message, where the two orders agree
* `related_perform`: an operation on the copy does what it does on an eager copy
* `copyOnWrite_refines`: every run, under the condition on its operations
-/

namespace Ong.Song.Message

open TreeMap List

/-- What `createParameterable` returns, as far as a message looks at it. -/
structure Parameterable where
  value : String
  charset : Option String
  text : String

inductive Thrown
  | illegalState
  | illegalArgument (message : String)
  | servletParse (message : String)
  | unsupportedEncoding (charset : String)
  | nullPointer

/-- A content: an array of bytes, a string, or another object, of which the messages take the text
that its `toString` gives. -/
inductive Content
  | bytes (array : List UInt8)
  | text (string : String)
  | object (string : String)

/-- The charsets of the platform, and the parser of the parameterable headers, which both classes
inherit. -/
structure Platform where
  createParameterable : (name header : String) → Except String Parameterable
  supported : String → Bool
  encode : (charset string : String) → List UInt8
  decode : (charset : String) → List UInt8 → String

def HD_CONTENT_TYPE : String := "Content-Type"

def HD_CONTENT_LENGTH : String := "Content-Length"

def isSystemHeader (name : String) : Bool := name = HD_CONTENT_TYPE

def isParameterableHeader (name : String) : Bool := name = HD_CONTENT_TYPE

/-- The values of a name, of which there is a first. -/
abbrev Values := String × List String

abbrev Headers {ρ : Type*} [LinearOrder ρ] (rank : String → ρ) := TreeMap rank Values

/-- The fields beside the headers.  The bytes are never null, for `HC` begins with an empty array. -/
structure Fields where
  contentType : Option String
  characterEncoding : String
  content : Option Content
  rawContent : List UInt8
  contentLength : Int
  attributes : List (String × String) := []

/-! ## The operations -/

/-- What an operation returns. -/
inductive Result
  | done
  | string (value : Option String)
  | strings (values : List String)
  | parameterable (value : Option Parameterable)
  | parameterables (values : List Parameterable)
  | content (value : Content)
  | bytes (value : List UInt8)
  | length (value : Int)

/-- The operations that read headers.  A name is null where the code looks for that. -/
inductive HeaderRead
  | getHeader (name : Option String)
  | getHeaderNames
  | getHeaders (name : Option String)
  | getParameterableHeader (name : Option String)
  | getParameterableHeaders (name : String)
  | getContentType

/-- The operations that write headers. -/
inductive HeaderWrite
  | addHeader (name : Option String) (value : String)
  | removeHeader (name : Option String)
  | setHeader (name : Option String) (value : String)
  | addParameterableHeader (name : String) (param : Parameterable) (first : Bool)
  | setParameterableHeader (name : String) (param : Parameterable)

/-- The operations that set the content, or what headers say of it. -/
inductive ContentWrite
  | setContent (content : Option Content) (contentType : Option String)
  | setContentLength (len : Int)
  | setContentType (type : Option String)

/-- The operations on the other fields. -/
inductive FieldOp
  | getCharacterEncoding
  | getContentLength
  | getRawContent
  | setCharacterEncoding (enc : String)
  | getAttribute (name : String)
  | setAttribute (name o : String)
  | removeAttribute (name : String)

inductive Op
  | read (op : HeaderRead)
  | write (op : HeaderWrite)
  | contentWrite (op : ContentWrite)
  | field (op : FieldOp)
  | getContent

section Headers

variable {ρ : Type*} [LinearOrder ρ] {rank : String → ρ} (p : Platform)

/-- The values of a name, as the lists of the library hold them. -/
def valuesOf (headers : Headers rank) (name : String) : List String :=
  match headers.get name with
  | none => []
  | some (v, vs) => v :: vs

def createParameterable (name header : String) : Except Thrown Parameterable :=
  match p.createParameterable name header with
  | .error message => .error (.servletParse message)
  | .ok param => .ok param

/-- The readers of both classes. -/
def readHeaders (headers : Headers rank) : HeaderRead → Except Thrown Result
  | .getHeader none => .error (.illegalArgument "Cannot get a header from a null name")
  | .getHeader (some name) => .ok (.string ((headers.get name).map Prod.fst))
  | .getHeaderNames => .ok (.strings (headers.entries.map Prod.fst))
  | .getHeaders none => .error (.illegalArgument "Cannot get headers from a null name")
  | .getHeaders (some name) => .ok (.strings (valuesOf headers name))
  | .getParameterableHeader none =>
    .error (.illegalArgument "Cannot get a Parametrable header with a null name")
  | .getParameterableHeader (some name) =>
    if isParameterableHeader name then
      match headers.get name with
      | none => .ok (.parameterable none)
      | some (v, _) => (createParameterable p name v).map fun param => .parameterable (some param)
    else .error (.servletParse (name ++ " header is not parameterable"))
  | .getParameterableHeaders name =>
    ((valuesOf headers name).mapM (createParameterable p name)).map .parameterables
  | .getContentType => .ok (.string ((headers.get HD_CONTENT_TYPE).map Prod.fst))

def checkCommitted (committed : Bool) : Except Thrown Unit :=
  if committed then .error .illegalState else .ok ()

/-- The checks of a header that an application writes.  Behind them the name is not that of the
content type, for which `addHeader` has a branch. -/
def checkName (committed : Bool) (name : Option String) (text : String) : Except Thrown String := do
  checkCommitted committed
  match name with
  | none => .error (.illegalArgument text)
  | some name =>
    if isSystemHeader name then
      .error (.illegalArgument ("Cannot modify the system header: " ++ name))
    else .ok name

/-- What an operation does to the values of a name. -/
structure Change where
  name : String
  change : Option Values → Option Values

def putLast (value : String) : Option Values → Option Values
  | none => some (value, [])
  | some (v, vs) => some (v, vs ++ [value])

def putFirst (value : String) : Option Values → Option Values
  | none => some (value, [])
  | some (v, vs) => some (value, v :: vs)

def removeAndPut (value : String) (_ : Option Values) : Option Values := some (value, [])

def HeaderWrite.changes (committed : Bool) : HeaderWrite → Except Thrown Change
  | .addHeader name value => do
    let name ← checkName committed name "Cannot set a header from a null name"
    return ⟨name, putLast value⟩
  | .removeHeader name => do
    let name ← checkName committed name "Cannot remove a header from a null name"
    return ⟨name, fun _ => none⟩
  | .setHeader name value => do
    let name ← checkName committed name "Cannot set a header from a null name"
    return ⟨name, removeAndPut value⟩
  | .addParameterableHeader name param first => do
    checkCommitted committed
    return ⟨name, if first then putFirst param.text else putLast param.text⟩
  | .setParameterableHeader name param => do
    checkCommitted committed
    return ⟨name, removeAndPut param.text⟩

def apply (headers : Headers rank) (c : Change) : Headers rank :=
  match c.change (headers.get c.name) with
  | none => headers.remove c.name
  | some values => headers.put c.name values

def setHeaderInternal (name value : String) : Change := ⟨name, removeAndPut value⟩

end Headers

section Content

variable (p : Platform)

def checkEncoding (enc : String) : Except Thrown Unit :=
  if p.supported enc then .ok () else .error (.unsupportedEncoding enc)

def getBytes (string enc : String) : Except Thrown (List UInt8) := do
  checkEncoding p enc
  return p.encode enc string

/-- What the `catch` clauses make of an exception. -/
def asIllegalArgument {α : Type} : Except Thrown α → Except Thrown α
  | .error (.servletParse message) | .error (.unsupportedEncoding message) =>
    .error (.illegalArgument message)
  | r => r

/-- What an operation sets: the fields that do not stay, and the headers. -/
structure Setting where
  rawContent : Option (List UInt8) := none
  content : Option Content := none
  characterEncoding : Option String := none
  contentType : Option String := none
  contentLength : Option Int := none
  headers : List Change

def Fields.set (f : Fields) (s : Setting) : Fields :=
  { f with
    rawContent := s.rawContent.getD f.rawContent
    content := s.content.or f.content
    characterEncoding := s.characterEncoding.getD f.characterEncoding
    contentType := s.contentType.or f.contentType
    contentLength := s.contentLength.getD f.contentLength }

/-- The three operations, with the encoding of the message. -/
def ContentWrite.setting (committed : Bool) (characterEncoding : String) :
    ContentWrite → Except Thrown Setting
  | .setContent content contentType => do
    checkCommitted committed
    let some content := content | .error (.illegalArgument "Cannot set a null content")
    let some contentType := contentType |
      .error (.illegalArgument "Cannot set a content with a null content-type")
    let param ← asIllegalArgument (createParameterable p HD_CONTENT_TYPE contentType)
    param.charset.forM (checkEncoding p)
    let (rawContent, content) ←
      match content with
      | .bytes array => pure (array, none)
      | .text string => pure (← getBytes p string characterEncoding, some (.text string))
      | .object string =>
        if param.value.startsWith "text/" then
          pure (← getBytes p string characterEncoding, some (.text string))
        else .error (.illegalArgument ("Cannot serialize the given content " ++ string ++
          " with the given content-type " ++ contentType))
    return {
      rawContent := some rawContent
      content
      characterEncoding := param.charset
      contentType := some param.value
      contentLength := some rawContent.length
      headers := [setHeaderInternal HD_CONTENT_TYPE contentType,
        setHeaderInternal HD_CONTENT_LENGTH (toString rawContent.length)] }
  | .setContentLength len => do
    checkCommitted committed
    if len < 0 then
      .error (.illegalArgument ("Cannot set a negative content length: " ++ toString len))
    else return {
      contentLength := some len
      headers := [setHeaderInternal HD_CONTENT_LENGTH (toString len)] }
  | .setContentType type => do
    checkCommitted committed
    let some type := type | .error (.illegalArgument "Cannot set a null content type")
    let param ← asIllegalArgument (createParameterable p HD_CONTENT_TYPE type)
    asIllegalArgument (param.charset.forM (checkEncoding p))
    return {
      characterEncoding := param.charset
      contentType := some param.value
      headers := [setHeaderInternal HD_CONTENT_TYPE param.value] }

/-- The operations on the other fields, the same in both classes. -/
def Fields.perform (committed : Bool) (f : Fields) : FieldOp → Except Thrown Result × Fields
  | .getCharacterEncoding => (.ok (.string (some f.characterEncoding)), f)
  | .getContentLength => (.ok (.length f.contentLength), f)
  | .getRawContent => (.ok (.bytes f.rawContent), f)
  | .setCharacterEncoding enc =>
    match (do checkCommitted committed; checkEncoding p enc : Except Thrown Unit) with
    | .error e => (.error e, f)
    | .ok () => (.ok .done, { f with characterEncoding := enc })
  | .getAttribute name => (.ok (.string (f.attributes.lookup name)), f)
  | .setAttribute name o =>
    (.ok .done, { f with attributes := (name, o) :: f.attributes.filter fun a => a.1 ≠ name })
  | .removeAttribute name =>
    (.ok .done, { f with attributes := f.attributes.filter fun a => a.1 ≠ name })

def isText (contentType : Option String) : Bool :=
  contentType.any fun t => t.startsWith "text/" || t.startsWith "application/xml"

/-- What `getContent` builds from the bytes when the content is null. -/
def Fields.build (f : Fields) : Except Thrown Content :=
  if isText f.contentType then do
    checkEncoding p f.characterEncoding
    return .text (p.decode f.characterEncoding f.rawContent)
  else .ok (.bytes f.rawContent)

/-- `getContent` of both classes: with bytes that are not null, a copy does not ask its message. -/
def Fields.getContent (f : Fields) : Except Thrown Result × Fields :=
  match f.content with
  | some content => (.ok (.content content), f)
  | none =>
    match f.build p with
    | .error e => (.error e, f)
    | .ok content => (.ok (.content content), { f with content := some content })

end Content

section Classes

variable {ρ ρ' : Type*} [LinearOrder ρ] [LinearOrder ρ']

/-- `HC`, over a map of headers with the comparator that `rank` stands for. -/
structure HC (rank : String → ρ) where
  headers : Headers rank
  fields : Fields

/-- `HCCopyOnWrite`, with the message it was made from. -/
structure HCCopyOnWrite (rank : String → ρ) (natural : String → ρ') where
  message : HC rank
  headers : Option (Headers natural)
  fields : Fields

variable {rank : String → ρ} {natural : String → ρ'} (p : Platform)

/-- The constructor that copies a message. -/
def HC.copy (internal : HC rank) : HC rank where
  headers := internal.headers
  fields :=
    { internal.fields with
      contentType := (internal.headers.get HD_CONTENT_TYPE).map Prod.fst
      content := none
      attributes := [] }

variable (message : HC rank)

def HCCopyOnWrite.new : HCCopyOnWrite rank natural where
  message
  headers := none
  fields := { message.fields with attributes := [] }

def HC.perform (committed : Bool) (h : HC rank) : Op → Except Thrown Result × HC rank
  | .read op => (readHeaders p h.headers op, h)
  | .write op =>
    match op.changes committed with
    | .error e => (.error e, h)
    | .ok c => (.ok .done, { h with headers := apply h.headers c })
  | .contentWrite op =>
    match op.setting p committed h.fields.characterEncoding with
    | .error e => (.error e, h)
    | .ok s => (.ok .done, ⟨s.headers.foldl apply h.headers, h.fields.set s⟩)
  | .field op => ((h.fields.perform p committed op).1,
      { h with fields := (h.fields.perform p committed op).2 })
  | .getContent =>
    ((h.fields.getContent p).1, { h with fields := (h.fields.getContent p).2 })

/-- `copyHeaders`: the values of each name of the message, in a map of the natural order. -/
def copyHeaders : Headers natural :=
  message.headers.entries.foldl (fun headers e =>
    (e.2.1 :: e.2.2).foldl (fun headers value => apply headers ⟨e.1, putLast value⟩) headers)
    TreeMap.empty

def HCCopyOnWrite.perform (committed : Bool) (c : HCCopyOnWrite rank natural) :
    Op → Except Thrown Result × HCCopyOnWrite rank natural
  | .read op =>
    match c.headers with
    | some headers => (readHeaders p headers op, c)
    | none => (readHeaders p c.message.headers op, c)
  | .write op =>
    match op.changes committed with
    | .error e => (.error e, c)
    | .ok change =>
      let headers := c.headers.getD (copyHeaders c.message)
      (.ok .done, { c with headers := some (apply headers change) })
  | .contentWrite op =>
    match op.setting p committed c.fields.characterEncoding with
    | .error e => (.error e, c)
    | .ok s =>
      match c.headers with
      | some headers =>
        (.ok .done, ⟨c.message, some (s.headers.foldl apply headers), c.fields.set s⟩)
      -- `setHeaderInternal` on headers that are null
      | none => (.error .nullPointer, { c with fields := c.fields.set s })
  | .field op => ((c.fields.perform p committed op).1,
      { c with fields := (c.fields.perform p committed op).2 })
  | .getContent =>
    ((c.fields.getContent p).1, { c with fields := (c.fields.getContent p).2 })

/-! ## The refinement -/

variable (s : HCCopyOnWrite rank natural × HC rank)

variable (e : Bool × Op)

/-- A copy and an eager copy take the same operation, when the message is committed or not. -/
def lockstep :
    Option (HCCopyOnWrite rank natural × HC rank) :=
  some ((s.1.perform p e.1 e.2).2, (s.2.perform p e.1 e.2).2)

/-- The copy returns what the eager copy does. -/
def Same : Prop :=
  (s.1.perform p e.1 e.2).1 = (s.2.perform p e.1 e.2).1

def HeaderRead.names : HeaderRead → List String
  | .getHeader name | .getHeaders name | .getParameterableHeader name => name.toList
  | .getParameterableHeaders name => [name]
  | .getHeaderNames => []
  | .getContentType => [HD_CONTENT_TYPE]

/-- The two orders are the same on a name and the names of a map. -/
def Agree (rank : String → ρ) (natural : String → ρ') (names : List String) : Prop :=
  ∀ a ∈ names, ∀ b ∈ names, rank a < rank b ↔ natural a < natural b

/-- The condition on an operation. -/
def Condition : Prop :=
  let names := s.2.headers.entries.map Prod.fst
  match e.2 with
  | .read op => s.1.headers.isSome → Agree rank natural (op.names ++ names)
  | .write op => ∀ c, op.changes e.1 = .ok c → Agree rank natural (c.name :: names)
  | .contentWrite op => ∀ r, op.setting p e.1 s.1.fields.characterEncoding = .ok r →
      s.1.headers.isSome ∧ Agree rank natural (r.headers.map Change.name ++ names)
  | .field _ => True
  | .getContent =>
    (s.1.fields.content = none →
        isText s.1.fields.contentType = isText s.2.fields.contentType) ∧
      (s.2.fields.content = none → ∀ content ∈ s.1.fields.content,
        s.2.fields.build p = .ok content)

/-- The fields of a copy and of an eager copy: the eager one may still have to build its content. -/
structure FieldsRelated (f g : Fields) : Prop where
  characterEncoding : f.characterEncoding = g.characterEncoding
  rawContent : f.rawContent = g.rawContent
  contentLength : f.contentLength = g.contentLength
  attributes : f.attributes = g.attributes
  content : f.content = g.content ∨ g.content = none

/-- The headers of a copy, its own or those of the message. -/
def entries (c : HCCopyOnWrite rank natural) : List (String × Values) :=
  match c.headers with
  | none => c.message.headers.entries
  | some headers => headers.entries

structure Related (c : HCCopyOnWrite rank natural) (h : HC rank) : Prop where
  entries : entries c = h.headers.entries
  fields : FieldsRelated c.fields h.fields

section Maps

variable {m : Headers rank} {m' : Headers natural} {names : List String}

theorem Agree.eq_iff (h : Agree rank natural names) {a b : String} (ha : a ∈ names)
    (hb : b ∈ names) : rank a = rank b ↔ natural a = natural b := by
  rw [le_antisymm_iff, le_antisymm_iff, ← not_lt, ← not_lt, ← not_lt, ← not_lt, h a ha b hb,
    h b hb a ha]

section

variable (hm : m'.entries = m.entries) (h : Agree rank natural names)

include hm h

theorem get_congr {k : String} (hk : k ∈ names) (hkeys : ∀ e ∈ m.entries, e.1 ∈ names) :
    m'.get k = m.get k := by
  unfold TreeMap.get
  rw [hm]
  exact (find_congr fun e he => h.eq_iff (hkeys e he) hk).symm

theorem apply_congr {c : Change} (hc : c.name ∈ names) (hkeys : ∀ e ∈ m.entries, e.1 ∈ names) :
    (apply m' c).entries = (apply m c).entries ∧ ∀ e ∈ (apply m c).entries, e.1 ∈ names := by
  have heq := fun e he => h.eq_iff (hkeys e he) hc
  unfold apply
  rw [get_congr hm h hc hkeys]
  cases c.change (m.get c.name) with
  | none =>
    refine ⟨?_, fun e he => hkeys e (mem_of_mem_remove he)⟩
    show erase natural c.name m'.entries = erase rank c.name m.entries
    rw [hm, erase_congr heq]
  | some values =>
    constructor
    · show TreeMap.insert natural c.name values m'.entries =
        TreeMap.insert rank c.name values m.entries
      rw [hm, insert_congr (fun e he => h c.name hc e.1 (hkeys e he)) heq]
    · intro e he
      rcases key_of_mem_insert he with heq | ⟨f, hf, heq⟩
      · rwa [heq]
      · exact heq ▸ hkeys f hf

theorem foldl_apply_congr {changes : List Change} (hchanges : ∀ c ∈ changes, c.name ∈ names)
    (hkeys : ∀ e ∈ m.entries, e.1 ∈ names) :
    (changes.foldl apply m').entries = (changes.foldl apply m).entries := by
  induction changes generalizing m m' with
  | nil => exact hm
  | cons c changes ih =>
    obtain ⟨hc, hchanges⟩ := forall_mem_cons.mp hchanges
    obtain ⟨happly, hkeys⟩ := apply_congr hm h hc hkeys
    exact ih happly hchanges hkeys

end

theorem readHeaders_congr (hm : m'.entries = m.entries) {op : HeaderRead}
    (hget : ∀ k ∈ op.names, m'.get k = m.get k) :
    readHeaders p m' op = readHeaders p m op := by
  cases op with
  | getHeaderNames => simp only [readHeaders, hm]
  | getContentType => simp only [readHeaders, hget _ mem_cons_self]
  | getParameterableHeaders name =>
    simp only [readHeaders, valuesOf, hget name mem_cons_self]
  | getHeader name | getHeaders name | getParameterableHeader name =>
    cases name with
    | none => rfl
    | some name => simp only [readHeaders, valuesOf, hget name mem_cons_self]

end Maps

section Copy

variable {m : Headers natural} {pre : List (String × Values)} {name value : String}
  {values : List String}

theorem putLast_new (hm : m.entries = pre) (hpre : ∀ e ∈ pre, natural e.1 < natural name) :
    (apply m ⟨name, putLast value⟩).entries = pre ++ [(name, (value, []))] := by
  subst hm
  have hget : m.get name = none := find_eq_none.mpr fun e he => (hpre e he).ne
  have hins := TreeMap.insert_append (b := ((value, []) : Values)) hpre []
  rw [append_nil] at hins
  simp only [apply, hget, putLast]
  exact hins

theorem putLast_same {first : String} (hm : m.entries = pre ++ [(name, (first, values))])
    (hpre : ∀ e ∈ pre, natural e.1 < natural name) :
    (apply m ⟨name, putLast value⟩).entries = pre ++ [(name, (first, values ++ [value]))] := by
  have hget : m.get name = some (first, values) := by
    unfold TreeMap.get
    rw [hm, find_append hpre, find, if_pos rfl]
  simp only [apply, hget, putLast, put]
  rw [hm, TreeMap.insert_append hpre, TreeMap.insert, if_neg (lt_irrefl _), if_pos rfl]

theorem putLast_all {first : String} (others : List String)
    (hm : m.entries = pre ++ [(name, (first, values))])
    (hpre : ∀ e ∈ pre, natural e.1 < natural name) :
    (others.foldl (fun headers value => apply headers ⟨name, putLast value⟩) m).entries =
      pre ++ [(name, (first, values ++ others))] := by
  induction others generalizing m values with
  | nil => rw [append_nil, foldl_nil, hm]
  | cons value others ih =>
    rw [foldl_cons, ih (putLast_same hm hpre), append_assoc, singleton_append]

/-- **The copy** of headers whose names the two orders sort alike. -/
theorem copyHeaders_entries {message : HC rank}
    (h : Agree rank natural (message.headers.entries.map Prod.fst)) :
    (copyHeaders message : Headers natural).entries = message.headers.entries := by
  have hsorted : message.headers.entries.Pairwise fun a b => natural a.1 < natural b.1 :=
    message.headers.sorted.imp_of_mem fun ha hb hlt =>
      (h _ (mem_map_of_mem ha) _ (mem_map_of_mem hb)).mp hlt
  have hcopy : ∀ (es : List (String × Values)) (m : Headers natural),
      (m.entries ++ es).Pairwise (fun a b => natural a.1 < natural b.1) →
      (es.foldl (fun headers e => (e.2.1 :: e.2.2).foldl
        (fun headers value => apply headers ⟨e.1, putLast value⟩) headers) m).entries =
          m.entries ++ es := by
    intro es
    induction es with
    | nil => exact fun m _ => (append_nil _).symm
    | cons e es ih =>
      intro m hes
      have hpre : ∀ f ∈ m.entries, natural f.1 < natural e.1 := fun f hf =>
        (pairwise_append.mp hes).2.2 f hf e mem_cons_self
      have hnew : (apply m ⟨e.1, putLast e.2.1⟩).entries = _ := putLast_new rfl hpre
      have hone := putLast_all e.2.2 hnew hpre
      rw [nil_append] at hone
      rw [foldl_cons, ih _ (by rw [foldl_cons, hone]; simpa using hes), foldl_cons,
        hone, append_assoc, singleton_append]
  exact hcopy _ _ hsorted

end Copy

section Steps

variable {c : HCCopyOnWrite rank natural} {h : HC rank} {committed : Bool} {f g : Fields}

theorem entries_none (h : c.headers = none) : entries c = c.message.headers.entries := by
  rw [entries, h]

theorem entries_some {headers : Headers natural} (h : c.headers = some headers) :
    entries c = headers.entries := by
  rw [entries, h]

theorem FieldsRelated.set (h : FieldsRelated f g) (s : Setting) :
    FieldsRelated (f.set s) (g.set s) where
  characterEncoding := by simp only [Fields.set, h.characterEncoding]
  rawContent := by simp only [Fields.set, h.rawContent]
  contentLength := by simp only [Fields.set, h.contentLength]
  attributes := h.attributes
  content := by
    cases hs : s.content with
    | none => simpa only [Fields.set, hs, Option.none_or] using h.content
    | some content => exact .inl (by simp only [Fields.set, hs, Option.some_or])

theorem FieldsRelated.perform (h : FieldsRelated f g) (committed : Bool) (op : FieldOp) :
    (f.perform p committed op).1 = (g.perform p committed op).1 ∧
      FieldsRelated (f.perform p committed op).2 (g.perform p committed op).2 := by
  obtain ⟨henc, hraw, hlen, hattr, hcontent⟩ := h
  cases op with
  | setCharacterEncoding enc =>
    simp only [Fields.perform]
    split
    · exact ⟨rfl, henc, hraw, hlen, hattr, hcontent⟩
    · exact ⟨rfl, rfl, hraw, hlen, hattr, hcontent⟩
  | setAttribute | removeAttribute =>
    exact ⟨rfl, henc, hraw, hlen, by simp only [Fields.perform, hattr], hcontent⟩
  | _ =>
    simp only [Fields.perform, henc, hraw, hlen, hattr, true_and]
    exact ⟨henc, hraw, hlen, hattr, hcontent⟩

theorem FieldsRelated.getContent (h : FieldsRelated f g)
    (htype : f.content = none → isText f.contentType = isText g.contentType)
    (hbuilt : g.content = none → ∀ content ∈ f.content, g.build p = .ok content) :
    (f.getContent p).1 = (g.getContent p).1 ∧
      FieldsRelated (f.getContent p).2 (g.getContent p).2 := by
  obtain ⟨henc, hraw, hlen, hattr, hcontent⟩ := h
  unfold Fields.getContent
  cases hg : g.content with
  | some content =>
    have hf := (hcontent.resolve_right (by rw [hg]; exact Option.some_ne_none _)).trans hg
    rw [hf]
    exact ⟨rfl, henc, hraw, hlen, hattr, .inl (hf.trans hg.symm)⟩
  | none =>
    cases hf : f.content with
    | some content =>
      rw [hbuilt hg content hf]
      exact ⟨rfl, henc, hraw, hlen, hattr, .inl hf⟩
    | none =>
      have hbuild : f.build p = g.build p := by
        simp only [Fields.build, htype hf, henc, hraw]
      rw [hbuild]
      cases g.build p with
      | error e => exact ⟨rfl, henc, hraw, hlen, hattr, hcontent⟩
      | ok content => exact ⟨rfl, henc, hraw, hlen, hattr, .inl rfl⟩

/-- Nothing that is done to the copy changes the message. -/
theorem message_perform (op : Op) : (c.perform p committed op).2.message = c.message := by
  cases op with
  | field | getContent => rfl
  | read | write =>
    simp only [HCCopyOnWrite.perform]
    split <;> rfl
  | contentWrite =>
    simp only [HCCopyOnWrite.perform]
    split
    · rfl
    · split <;> rfl

/-- **One operation** on a copy and on an eager copy. -/
theorem related_perform (hr : Related c h) {op : Op} (hC : Condition p (c, h) (committed, op)) :
    Same p (c, h) (committed, op) ∧
      Related (c.perform p committed op).2 (h.perform p committed op).2 := by
  have hkeys : ∀ e ∈ h.headers.entries, e.1 ∈ h.headers.entries.map Prod.fst := fun e he =>
    mem_map_of_mem he
  unfold Same
  cases op with
  | read op =>
    simp only [HCCopyOnWrite.perform, HC.perform]
    cases hhead : c.headers with
    | none =>
      have hentries := (entries_none hhead).symm.trans hr.entries
      exact ⟨readHeaders_congr p hentries fun k _ => by simp only [TreeMap.get, hentries], hr⟩
    | some headers =>
      have hentries := (entries_some hhead).symm.trans hr.entries
      have hagree := hC (by rw [hhead]; rfl)
      refine ⟨readHeaders_congr p hentries fun k hk => ?_, hr⟩
      exact get_congr hentries hagree (mem_append_left _ hk) fun e he =>
        mem_append_right _ (hkeys e he)
  | write op =>
    simp only [HCCopyOnWrite.perform, HC.perform]
    cases hop : op.changes committed with
    | error e => exact ⟨rfl, hr⟩
    | ok change =>
      have hagree : Agree rank natural (change.name :: h.headers.entries.map Prod.fst) :=
        hC change hop
      have hcopied : (c.headers.getD (copyHeaders c.message)).entries = h.headers.entries := by
        cases hhead : c.headers with
        | none =>
          have hentries := (entries_none hhead).symm.trans hr.entries
          rw [Option.getD_none, copyHeaders_entries, hentries]
          rw [hentries]
          exact fun a ha b hb =>
            hagree a (mem_cons_of_mem _ ha) b (mem_cons_of_mem _ hb)
        | some headers => exact (entries_some hhead).symm.trans hr.entries
      exact ⟨rfl, (apply_congr hcopied hagree mem_cons_self fun e he =>
        mem_cons_of_mem _ (hkeys e he)).1, hr.fields⟩
  | contentWrite op =>
    simp only [HCCopyOnWrite.perform, HC.perform, ← hr.fields.characterEncoding]
    cases hop : op.setting p committed c.fields.characterEncoding with
    | error e => exact ⟨rfl, hr⟩
    | ok s =>
      obtain ⟨hsome, hagree⟩ := hC s hop
      obtain ⟨headers, hhead : c.headers = some headers⟩ := Option.isSome_iff_exists.mp hsome
      have hentries := (entries_some hhead).symm.trans hr.entries
      simp only [hhead]
      exact ⟨trivial, foldl_apply_congr hentries hagree
        (fun c hc => mem_append_left _ (mem_map_of_mem hc))
        (fun e he => mem_append_right _ (hkeys e he)), hr.fields.set s⟩
  | field op =>
    obtain ⟨hsame, hfields⟩ := hr.fields.perform p committed op
    exact ⟨hsame, hr.entries, hfields⟩
  | getContent =>
    obtain ⟨hsame, hfields⟩ := hr.fields.getContent p hC.1 hC.2
    exact ⟨hsame, hr.entries, hfields⟩

end Steps

/-! ## Runs -/

/-- A copy of a message, and an eager copy. -/
def start (natural : String → ρ') : HCCopyOnWrite rank natural × HC rank :=
  (.new message, message.copy)

theorem related_start :
    Related (start message natural).1 (start message natural).2 where
  entries := rfl
  fields := ⟨rfl, rfl, rfl, rfl, .inr rfl⟩

end Classes

/-- A platform with one charset, of one byte for each character, and no parameters. -/
def latin1 : Platform where
  createParameterable _ header := .ok ⟨header, none, header⟩
  supported charset := charset = "ISO-8859-1"
  encode _ string := string.toList.map fun c => UInt8.ofNat c.toNat
  decode _ bytes := String.ofList (bytes.map fun b => Char.ofNat b.toNat)

/-- A message as `HC` builds it. -/
def emptyMessage : HC (fun name : String => name.toList.map Char.toLower) where
  headers := ⟨[(HD_CONTENT_LENGTH, ("0", []))], List.pairwise_singleton _ _⟩
  fields := ⟨some "application/octet-stream", "ISO-8859-1", none, [], 0, []⟩

end Ong.Song.Message
