import Ong.Lib.Comes
import Ong.SongHttp.HttpServerBounds

/-!
# The parsing of HTTP requests

A request that is within the limits is handed to the handler as it was written, whatever pieces its
bytes come in, if no header is lost on the way: a name that is overwritten before it is made, a
value that is empty, and the last entry of the headers of a request without content.

## Main results

* `comes_requestLine`, `comes_headers`, `comes_content`: the run, part by part
* `parsed_of_condition`: a request is handed as it was written, and the bounds hold for every stream
-/

namespace Ong.SongHttp

open Program Util SocketRead HttpBuffer HttpServerTransaction Run MultiMap List

/-- The part of a value on one line: white space, and a text that does not begin with any. -/
structure ValueLine where
  blanks : List UInt8
  text : List UInt8
  blanks_blank : ∀ b ∈ blanks, isBlank b = true
  text_start : ∀ b ∈ text.head?, isBlank b = false
  text_line : LF ∉ text

def ValueLine.bytes (l : ValueLine) : List UInt8 := l.blanks ++ (l.text ++ [CR, LF])

/-- A header, with the lines that continue it: these begin with white space. -/
structure HttpHeader where
  name : List UInt8
  first : ValueLine
  continued : List {l : ValueLine // l.blanks ≠ []}
  name_token : ∀ b ∈ name, delimits colon b = false
  name_start : ∀ b ∈ name.head?, isBlank b = false

namespace HttpHeader

variable (platform : Platform) (h : HttpHeader)

def lines : List ValueLine := h.first :: h.continued.map Subtype.val

def bytes : List UInt8 := h.name ++ colon :: h.lines.flatMap ValueLine.bytes

/-- The names of headers are in lower case. -/
def nameString : String := platform.toLowerCase (platform.newString h.name)

/-- The texts of the lines, one after the other. -/
def valueString (lines : List ValueLine) : String :=
  lines.foldl (fun v l => v ++ platform.newString l.text) ""

def entry : String × String := (h.nameString platform, valueString platform h.lines)

/-- The bytes that are counted. -/
def counted : Nat := h.name.length + (h.lines.map fun l => l.text.length).sum

end HttpHeader

/-- A request, as it is written. -/
structure HttpRequest where
  method : List UInt8
  rawRequestUri : List UInt8
  httpVersion : List UInt8
  headers : List HttpHeader
  content : List UInt8
  method_token : ∀ b ∈ method, delimits SP b = false
  uri_token : ∀ b ∈ rawRequestUri, delimits SP b = false
  version_line : LF ∉ httpVersion

namespace HttpRequest

variable (manager : HttpServerManager) (platform : Platform) (r : HttpRequest)

def bytes : List UInt8 :=
  r.method ++ SP :: (r.rawRequestUri ++ SP :: (r.httpVersion ++ CR :: LF ::
    (r.headers.flatMap HttpHeader.bytes ++ CR :: LF :: r.content)))

def methodString : String := platform.toUpperCase (platform.newString r.method)

def uriString : String := platform.newString r.rawRequestUri

def versionString : String := platform.newString r.httpVersion

/-- The headers that are written. -/
def entries : List (String × String) := r.headers.map (HttpHeader.entry platform)

def hasContent : Prop := r.methodString platform = "POST" ∨ r.methodString platform = "PUT"

instance : Decidable (r.hasContent platform) := inferInstanceAs (Decidable (_ ∨ _))

/-- The headers that are written, without the content length of a request that has no content. -/
def written : List (String × String) :=
  if r.hasContent platform then r.entries platform
  else (r.entries platform).filter fun e =>
    platform.caseInsensitiveOrder e.1 ≠ platform.caseInsensitiveOrder "Content-Length"

/-- The bytes that are counted. -/
def counted : Nat :=
  r.method.length + r.rawRequestUri.length + r.httpVersion.length +
    (r.headers.map HttpHeader.counted).sum

/-- A header whose lines are within the limits and fit the buffer. -/
structure HeaderAllowed (h : HttpHeader) : Prop where
  name_fits : h.name.length < manager.maxBufferSize
  name_length : h.name.length ≤ manager.maxHeaderLineLength
  line_fits : ∀ l ∈ h.lines, l.text.length + 2 ≤ manager.maxBufferSize
  line_length : ∀ k (hk : k < h.lines.length),
    javaLength (h.nameString platform) +
      javaLength (HttpHeader.valueString platform (h.lines.take k)) +
      h.lines[k].text.length ≤ manager.maxHeaderLineLength

/-- The lines and the headers are within the limits and fit the buffer. -/
structure Allowed : Prop where
  method_fits : r.method.length < manager.maxBufferSize
  method_length : r.method.length ≤ manager.maxHeaderLineLength
  uri_fits : r.rawRequestUri.length < manager.maxBufferSize
  uri_length : r.rawRequestUri.length ≤ manager.maxHeaderLineLength
  version_fits : r.httpVersion.length + 2 ≤ manager.maxBufferSize
  version_length : r.httpVersion.length ≤ manager.maxHeaderLineLength
  headers : ∀ h ∈ r.headers, HeaderAllowed manager platform h
  headers_number : r.headers.length ≤ manager.maxNbOfHeaders
  headers_length : r.counted ≤ manager.maxHeadersLength

/-- A request that HTTP allows: a method of the server, a host for a path in HTTP/1.1, and a content
of the length that is written. -/
structure WellFormed : Prop where
  method : r.methodString platform ∈ methods
  uri : r.uriString platform ≠ ""
  host : r.versionString platform = "HTTP/1.1" → (r.uriString platform).toList.head? = some '/' →
    valuesOf platform.caseInsensitiveOrder "Host" (r.entries platform) ≠ []
  content_length : r.hasContent platform →
    ∃ v ∈ (valuesOf platform.caseInsensitiveOrder "Content-Length" (r.entries platform)).head?,
      platform.parseInt v = some (r.content.length : Int)
  content_small : r.content.length ≤ manager.maxContentLength
  no_content : ¬r.hasContent platform → r.content = []

end HttpRequest

variable {manager : HttpServerManager} {platform : Platform} {r : HttpRequest}
  {s : HttpBuffer} {left : List UInt8} {counted : Nat} {P : HttpServerTransaction platform → Prop}

/-- **What the handler gets is what was written**: the method, the URI, the version and the content,
and by the iteration over the headers every value of every name in order. -/
structure Hands (platform : Platform) (r : HttpRequest) (t : HttpServerTransaction platform) :
    Prop where
  method : t.method = r.methodString platform
  uri : t.rawRequestUri = r.uriString platform
  version : t.httpVersion = r.versionString platform
  headers : ∃ es, t.headers.entrySet = some es ∧ ∀ name,
    valuesOf platform.caseInsensitiveOrder name es =
      valuesOf platform.caseInsensitiveOrder name (r.written platform)
  contentLength : t.contentLength = r.content.length
  content : t.content = r.content

variable (t : HttpServerTransaction platform)

/-- The condition for the headers: the name is still there when it is made, the value of a header
that ends is not empty, and a request without content has one content length. -/
def Parses : Prop :=
  match t.phase with
  | .headers => t.name ≠ none → t.value = "" → t.input.bytesLeft.head?.any isBlank = true
  | .headerName start length => NameKept t.input start length
  | .request => t.method ≠ "POST" → t.method ≠ "PUT" →
      (t.headers.getAll "Content-Length").length = 1
  | _ => True

/-- The condition, computed. -/
def parses : Bool :=
  match t.phase with
  | .headers => decide (t.name ≠ none → t.value = "" →
      t.input.bytesLeft.head?.any isBlank = true)
  | .headerName start length => decide (NameKept t.input start length)
  | .request => decide (t.method ≠ "POST" → t.method ≠ "PUT" →
      (t.headers.getAll "Content-Length").length = 1)
  | _ => true

theorem parses_iff : parses t = true ↔ Parses t := by
  unfold parses Parses
  cases t.phase with
  | headers | headerName | request => exact decide_eq_true_iff
  | _ => exact iff_of_true rfl trivial

instance (t : HttpServerTransaction platform) : Decidable (Parses t) :=
  decidable_of_iff _ (parses_iff t)

/-- What is left of the request in the buffer and the stream, and how many bytes were counted. -/
structure Stands (manager : HttpServerManager) (s : HttpBuffer) (left : List UInt8)
    (counted : Nat) : Prop where
  within : s.Within
  length : s.buffer.length = manager.maxBufferSize
  left : s.bytesLeft = left
  counted : s.headersLength = counted

theorem Stands.takes (h : Stands manager s left counted) {t : HttpBuffer} {k : Nat}
    (ht : Takes s k t) {left' : List UInt8} (hleft : t.bytesLeft = left') :
    Stands manager t left' (counted + k) :=
  ⟨ht.within, ht.length.trans h.length, hleft, by rw [ht.counted, h.counted, Int.natCast_add]⟩

theorem Stands.limits (h : Stands manager s left counted) {prefixLength length : Nat}
    (hline : prefixLength + length ≤ manager.maxHeaderLineLength)
    (hall : counted + length ≤ manager.maxHeadersLength) : Limits manager s prefixLength length := by
  refine ⟨hline, ?_⟩
  rw [h.counted]
  omega

theorem comes_call {α : Type} {t : HttpServerTransaction platform} {m : Reading α}
    {Q : α → HttpBuffer → Prop} {E : HttpException → HttpBuffer → Prop}
    {k : α → HttpServerTransaction platform → HttpServerTransaction platform}
    (hstep : step manager platform t () = some (t.call m k)) (h : Ends m Q E t.input)
    (hE : ∀ e s, ¬E e s)
    (hQ : ∀ a s, Q a s → Parses t → Comes (step manager platform) Parses P (k a { t with input := s })) :
    Comes (step manager platform) Parses P t :=
  .next hstep fun hparses =>
    call_ends h (fun a s hq => hQ a s hq hparses) fun e s he => absurd he (hE e s)

theorem Stands.token (h : Stands manager s left counted) {d : UInt8} {token rest : List UInt8}
    (hleft : left = token ++ d :: rest) (htoken : ∀ b ∈ token, delimits d b = false)
    {token' rest' : List UInt8} (hread : s.bytesLeft = token' ++ d :: rest')
    (htoken' : ∀ b ∈ token', delimits d b = false) : token' = token ∧ rest' = rest := by
  rw [h.left, hleft] at hread
  obtain ⟨rfl, -, rfl⟩ := Delimiter.split_unique hread.symm (delimits_self d) (delimits_self d)
    htoken' htoken
  exact ⟨rfl, rfl⟩

theorem Stands.tokenAllowed (h : Stands manager s left counted) {d : UInt8}
    {token rest : List UInt8} (hleft : left = token ++ d :: rest)
    (htoken : ∀ b ∈ token, delimits d b = false) (hfits : token.length < manager.maxBufferSize)
    (hline : token.length ≤ manager.maxHeaderLineLength)
    (hall : counted + token.length ≤ manager.maxHeadersLength) : TokenAllowed manager d s :=
  ⟨token, rest, h.left.trans hleft, htoken, h.length ▸ hfits, h.limits (by omega) hall⟩

theorem IsLine.ahead {line rest : List UInt8} (h : IsLine s line rest) : LineAhead s := by
  intro hhead
  rw [h.1] at hhead
  rcases line with _ | ⟨b, line⟩
  · exact absurd (Option.some.inj hhead) (by decide)
  · exact absurd (Option.some.inj hhead ▸ mem_cons_self) h.2

theorem comes_readLine {t : HttpServerTransaction platform} {line rest : List UInt8}
    {prefixLength : Nat}
    {k : String → HttpServerTransaction platform → HttpServerTransaction platform}
    (hstep : step manager platform t () =
      some (t.call (readLine manager platform prefixLength) k))
    (h : Stands manager t.input (line ++ CR :: LF :: rest) counted) (hLF : LF ∉ line)
    (hfits : line.length + 2 ≤ manager.maxBufferSize)
    (hline : prefixLength + line.length ≤ manager.maxHeaderLineLength)
    (hall : counted + line.length ≤ manager.maxHeadersLength)
    (hQ : ∀ s, Stands manager s rest (counted + line.length) →
      Comes (step manager platform) Parses P (k (platform.newString line) { t with input := s })) :
    Comes (step manager platform) Parses P t := by
  have hisLine : IsLine t.input line rest := ⟨h.left, hLF⟩
  have hroom : 0 < t.input.buffer.length := by
    rw [h.length]
    omega
  refine comes_call hstep (readLine_ends h.within hroom hisLine.ahead) ?_ ?_
  · rintro e s ⟨-, -, -, hallowed⟩
    exact hallowed ⟨line, rest, hisLine, h.length ▸ hfits, h.limits hline hall⟩
  · rintro text s ⟨k', hs, hread⟩ -
    obtain ⟨rfl, hrest, rfl⟩ := hread line rest hisLine
    exact hQ s (h.takes hs hrest)

/-- What comes behind the request line. -/
def HttpRequest.afterLine (r : HttpRequest) (rest : List UInt8) : List UInt8 :=
  r.headers.flatMap HttpHeader.bytes ++ CR :: LF :: (r.content ++ rest)

/-- **The request line is read.** -/
theorem comes_requestLine (hallowed : r.Allowed manager platform)
    (hwf : r.WellFormed manager platform) {buffer : List UInt8} {reads : List SocketRead}
    {rest : List UInt8} (hlen : buffer.length = manager.maxBufferSize)
    (hreads : allBytes reads = r.bytes ++ rest) :
    Comes (step manager platform) Parses (fun t => ∃ s,
      t = ⟨.headers, s, r.methodString platform, r.uriString platform, r.versionString platform,
        none, "", .empty, 0⟩ ∧
      Stands manager s (r.afterLine rest)
        (r.method.length + r.rawRequestUri.length + r.httpVersion.length))
      (start buffer reads) := by
  have hcounted := hallowed.headers_length
  unfold HttpRequest.counted at hcounted
  have hbytes : r.bytes ++ rest = r.method ++ SP :: (r.rawRequestUri ++ SP ::
      (r.httpVersion ++ CR :: LF :: r.afterLine rest)) := by
    simp [HttpRequest.bytes, HttpRequest.afterLine]
  have hstart : Stands manager (start buffer reads : HttpServerTransaction platform).input
      (r.bytes ++ rest) 0 :=
    ⟨⟨Nat.le_refl 0, Nat.zero_le _⟩, hlen, hreads, rfl⟩
  refine comes_call rfl (refill_ends hstart.within rfl) ?_ ?_
  · rintro _ _ ⟨rfl, rfl, hnil⟩
    rw [hstart.left, hbytes] at hnil
    exact absurd hnil (by simp)
  rintro _ s₁ ⟨hkeeps, -⟩ -
  have h₁ : Stands manager s₁ (r.bytes ++ rest) 0 := ⟨hkeeps.within, hkeeps.length.trans hlen,
    hkeeps.left.trans hstart.left, hkeeps.counted⟩
  refine comes_call rfl (readUntilSP_ends h₁.within) ?_ ?_
  · rintro e t ⟨-, -, -, hrefused⟩
    exact hrefused (h₁.tokenAllowed hbytes r.method_token hallowed.method_fits
      hallowed.method_length (by omega))
  rintro text s₂ ⟨token, htakes, hread, htoken, rfl, -⟩ -
  obtain ⟨rfl, hleft⟩ := h₁.token hbytes r.method_token hread htoken
  have h₂ := h₁.takes htakes hleft
  let t : HttpServerTransaction platform := ⟨.method, s₂, "", "", "", none, "", .empty, 0⟩
  have hmethod : t.methodRead (r.methodString platform) =
      ⟨.requestUri, s₂, r.methodString platform, "", "", none, "", .empty, 0⟩ := by
    rw [methodRead, if_pos hwf.method]
  change Comes _ _ _ (t.methodRead (r.methodString platform))
  rw [hmethod]
  refine comes_call rfl (readUntilSP_ends h₂.within) ?_ ?_
  · rintro e t ⟨-, -, -, hrefused⟩
    exact hrefused (h₂.tokenAllowed rfl r.uri_token hallowed.uri_fits hallowed.uri_length (by omega))
  rintro text s₃ ⟨token, htakes, hread, htoken, rfl, -⟩ -
  obtain ⟨rfl, hleft⟩ := h₂.token rfl r.uri_token hread htoken
  have h₃ := h₂.takes htakes hleft
  refine comes_readLine rfl h₃ r.version_line hallowed.version_fits ?_ (by omega) ?_
  · have := hallowed.version_length
    omega
  · intro s₄ h₄
    exact .now ⟨s₄, rfl, by simpa [Nat.zero_add] using h₄⟩

section Headers

open Util

/-- The transaction of the request `r` in its headers, those of `es` put. -/
def inHeaders (platform : Platform) (r : HttpRequest) (phase : Phase) (s : HttpBuffer)
    (name : Option String) (value : String) (es : List (String × String)) :
    HttpServerTransaction platform :=
  ⟨phase, s, r.methodString platform, r.uriString platform, r.versionString platform, name, value,
    MultiMap.ofList platform.caseInsensitiveOrder es, 0⟩

/-- The header that was read and is not put yet. -/
def pending (name : Option String) (value : String) : List (String × String) :=
  (name.map fun n => (n, value)).toList

variable {name : Option String} {value : String} {es : List (String × String)}

theorem addHeader_inHeaders {p next : Phase} (hnone : name = none → value = "")
    (hsome : name ≠ none → value ≠ "")
    (hmax : (es ++ pending name value).length ≤ manager.maxNbOfHeaders) :
    addHeader manager (inHeaders platform r p s name value es) next =
      inHeaders platform r next s name "" (es ++ pending name value) := by
  cases name with
  | none =>
    obtain rfl := hnone rfl
    simp [addHeader, inHeaders, pending]
  | some n =>
    have hvalue : value ≠ "" := hsome nofun
    have hput : (ofList platform.caseInsensitiveOrder es).putLast n value =
        ofList platform.caseInsensitiveOrder (es ++ pending (some n) value) :=
      (ofList_append es).symm
    have hsize : ¬(manager.maxNbOfHeaders : Int) <
        (ofList platform.caseInsensitiveOrder (es ++ pending (some n) value)).size := by
      rw [size_ofList]
      omega
    simp only [addHeader, inHeaders, hvalue, if_false, hput, hsize]

theorem lineBegun_of_ne {b : UInt8} {bs : List UInt8} (hleft : s.bytesLeft = b :: bs)
    (hb : isBlank b = false) (hCR : b = CR → bs.head? = some LF) : LineBegun name s :=
  ⟨b, bs, hleft, fun h => absurd h (by simp [hb]), hCR⟩

theorem value_ne_of_parses {b : UInt8} {bs : List UInt8}
    (h : Parses (inHeaders platform r .headers s name value es)) (hleft : s.bytesLeft = b :: bs)
    (hb : isBlank b = false) : name ≠ none → value ≠ "" := by
  intro hname hvalue
  have hblank : s.bytesLeft.head?.any isBlank = true := h hname hvalue
  rw [hleft] at hblank
  exact absurd (hb.symm.trans hblank) Bool.false_ne_true

theorem dropWhile_line (l : ValueLine) (rest : List UInt8) :
    (l.bytes ++ rest).dropWhile isBlank = l.text ++ CR :: LF :: rest := by
  have hrest : l.bytes ++ rest = l.blanks ++ (l.text ++ CR :: LF :: rest) := by
    simp [ValueLine.bytes]
  rw [hrest, dropWhile_append_of_pos l.blanks_blank]
  rcases htext : l.text with _ | ⟨b, text⟩
  · rfl
  · have hb := l.text_start b (by rw [htext]; rfl)
    rw [cons_append, dropWhile_cons, hb]
    rfl

/-- **The lines that continue a header are read.** -/
theorem comes_continued {h : HttpHeader} (hallowed : HttpRequest.HeaderAllowed manager platform h)
    (before after : List ValueLine) (hlines : h.lines = before ++ after)
    (hblanks : ∀ l ∈ after, l.blanks ≠ []) {rest : List UInt8}
    (hs : Stands manager s (after.flatMap ValueLine.bytes ++ rest) counted)
    (hall : counted + (after.map fun l => l.text.length).sum ≤ manager.maxHeadersLength)
    (hP : ∀ s, Stands manager s rest (counted + (after.map fun l => l.text.length).sum) →
      Comes (step manager platform) Parses P (inHeaders platform r .headers s
        (some (h.nameString platform)) (HttpHeader.valueString platform h.lines) es)) :
    Comes (step manager platform) Parses P (inHeaders platform r .headers s
      (some (h.nameString platform)) (HttpHeader.valueString platform before) es) := by
  induction after generalizing before s counted with
  | nil =>
    rw [append_nil] at hlines
    rw [← hlines]
    exact hP s hs
  | cons l after ih =>
    simp only [map_cons, sum_cons] at hall hP
    rw [flatMap_cons, append_assoc] at hs
    have hmem : l ∈ h.lines := by
      rw [hlines]
      exact mem_append_right _ mem_cons_self
    have hfits := hallowed.line_fits l hmem
    have hlength : javaLength (h.nameString platform) +
        javaLength (HttpHeader.valueString platform before) + l.text.length ≤
          manager.maxHeaderLineLength := by
      have := hallowed.line_length before.length (by rw [hlines]; simp)
      simpa [hlines] using this
    obtain ⟨b, bs, hbs⟩ := exists_cons_of_ne_nil (hblanks l mem_cons_self)
    have hb : isBlank b = true := l.blanks_blank b (by rw [hbs]; exact mem_cons_self)
    have hleft : s.bytesLeft =
        b :: (bs ++ (l.text ++ [CR, LF]) ++ (after.flatMap ValueLine.bytes ++ rest)) := by
      rw [hs.left, ValueLine.bytes, hbs]
      rfl
    have hskipped : (bs ++ (l.text ++ [CR, LF]) ++ (after.flatMap ValueLine.bytes ++ rest)).dropWhile
        isBlank = l.text ++ CR :: LF :: (after.flatMap ValueLine.bytes ++ rest) := by
      have hdrop := dropWhile_line l (after.flatMap ValueLine.bytes ++ rest)
      rwa [ValueLine.bytes, hbs, cons_append, cons_append, dropWhile_cons, if_pos hb]
        at hdrop
    refine comes_call rfl (readLineStart_ends hs.within (by rw [hs.length]; omega) _) ?_ ?_
    · rintro e t ⟨-, -, -, hrefused⟩
      refine hrefused ⟨b, _, hleft, fun _ => ⟨nofun, ?_⟩, fun hCR => ?_⟩
      · rw [hskipped]
        simp
      · rw [hCR] at hb
        exact absurd hb (by decide)
    rintro start s₁ ⟨htakes, hbegins⟩ -
    cases start with
    | ended =>
      have := hleft.symm.trans hbegins.1
      rw [(cons.inj this).1] at hb
      exact absurd hb (by decide)
    | named =>
      obtain ⟨-, b', bs', hleft', hb', -⟩ := hbegins
      rw [(cons.inj (hleft.symm.trans hleft')).1, hb'] at hb
      cases hb
    | continued =>
      obtain ⟨-, b', bs', hleft', -, hrest⟩ := hbegins
      obtain ⟨rfl, rfl⟩ := cons.inj (hleft.symm.trans hleft')
      have h₁ := hs.takes htakes (hrest.trans hskipped)
      refine comes_readLine rfl h₁ l.text_line hfits hlength (by omega) ?_
      intro s₂ h₂
      have hvalue : HttpHeader.valueString platform (before ++ [l]) =
          HttpHeader.valueString platform before ++ platform.newString l.text := by
        rw [HttpHeader.valueString, foldl_append]
        rfl
      have hnext := ih (before ++ [l]) (by rw [hlines, append_assoc]; rfl)
        (fun l' hl' => hblanks l' (mem_cons_of_mem _ hl')) h₂ (by omega)
        (fun s' hs' => hP s' (by rw [← Nat.add_assoc]; exact hs'))
      rw [hvalue] at hnext
      exact hnext

theorem HttpHeader.bytes_start (h : HttpHeader) :
    ∃ b bs, h.bytes = b :: bs ∧ isBlank b = false ∧ b ≠ CR := by
  rcases hname : h.name with _ | ⟨b, name⟩
  · exact ⟨colon, _, by rw [HttpHeader.bytes, hname]; rfl, by decide, by decide⟩
  · refine ⟨b, _, by rw [HttpHeader.bytes, hname]; rfl, h.name_start b (by rw [hname]; rfl), ?_⟩
    rintro rfl
    have := h.name_token CR (by rw [hname]; exact mem_cons_self)
    rw [delimits_CR] at this
    cases this

/-- **The next header is read.** -/
theorem comes_header {h : HttpHeader} (hallowed : HttpRequest.HeaderAllowed manager platform h)
    {rest : List UInt8} (hs : Stands manager s (h.bytes ++ rest) counted)
    (hnone : name = none → value = "")
    (hmax : (es ++ pending name value).length ≤ manager.maxNbOfHeaders)
    (hall : counted + h.counted ≤ manager.maxHeadersLength)
    (hP : ∀ s, Stands manager s rest (counted + h.counted) →
      Comes (step manager platform) Parses P (inHeaders platform r .headers s
        (some (h.nameString platform)) (HttpHeader.valueString platform h.lines)
        (es ++ pending name value))) :
    Comes (step manager platform) Parses P (inHeaders platform r .headers s name value es) := by
  have hfits := hallowed.name_fits
  have hcounted : h.counted = h.name.length + (h.first.text.length +
      ((h.continued.map Subtype.val).map fun l => l.text.length).sum) := rfl
  obtain ⟨b, bs, hbs, hb, hCR⟩ := h.bytes_start
  have hleft : s.bytesLeft = b :: (bs ++ rest) := by
    rw [hs.left, hbs]
    rfl
  refine comes_call rfl (readLineStart_ends hs.within (by rw [hs.length]; omega) _) ?_ ?_
  · rintro e t ⟨-, -, -, hrefused⟩
    exact hrefused (lineBegun_of_ne hleft hb fun h => absurd h hCR)
  rintro start s₁ ⟨htakes, hbegins⟩ hparses
  cases start with
  | ended => exact absurd (cons.inj (hleft.symm.trans hbegins.1)).1 hCR
  | continued =>
    obtain ⟨-, b', bs', hleft', hb', -⟩ := hbegins
    rw [(cons.inj (hleft.symm.trans hleft')).1, hb'] at hb
    cases hb
  | named =>
    have h₁ := hs.takes htakes (hbegins.1.trans hs.left)
    change Comes _ _ _ (addHeader manager (inHeaders platform r .headers s₁ name value es) .headerStart)
    rw [addHeader_inHeaders hnone (value_ne_of_parses hparses hleft hb) hmax]
    have hbytes : h.bytes ++ rest = h.name ++ colon :: (h.lines.flatMap ValueLine.bytes ++ rest) := by
      simp [HttpHeader.bytes]
    refine comes_call rfl (findHeaderName_ends h₁.within) ?_ ?_
    · rintro e t ⟨-, -, -, hrefused⟩
      exact hrefused (h₁.tokenAllowed hbytes h.name_token hfits hallowed.name_length (by omega))
    rintro ⟨start, length⟩ s₂ ⟨token, htakes, hread, htoken, hname, hle⟩ -
    obtain ⟨rfl, hleft₂⟩ := h₁.token hbytes h.name_token hread htoken
    have h₂ := h₁.takes htakes hleft₂
    have hlines : h.lines.flatMap ValueLine.bytes ++ rest = h.first.bytes ++
        ((h.continued.map Subtype.val).flatMap ValueLine.bytes ++ rest) := by
      rw [HttpHeader.lines, flatMap_cons, append_assoc]
    have hskipped : s₂.bytesLeft.dropWhile isBlank = h.first.text ++ CR :: LF ::
        ((h.continued.map Subtype.val).flatMap ValueLine.bytes ++ rest) := by
      rw [h₂.left, hlines, dropWhile_line]
    refine comes_call rfl (buildHeaderName_ends h₂.within (by rw [h₂.length]; omega) hle) ?_ ?_
    · rintro e t ⟨-, -, -, hnil⟩
      rw [hskipped] at hnil
      exact absurd hnil (by simp)
    rintro text s₃ ⟨htakes, hleft₃, hkept⟩ hparses
    obtain rfl : text = platform.newString h.name := hname ▸ hkept hparses
    have h₃ := h₂.takes htakes (hleft₃.trans hskipped)
    have hfirst := hallowed.line_fits h.first mem_cons_self
    have hlength : javaLength (h.nameString platform) + h.first.text.length ≤
        manager.maxHeaderLineLength := by
      have := hallowed.line_length 0 (Nat.succ_pos _)
      change javaLength (h.nameString platform) + 0 + h.first.text.length ≤ _ at this
      omega
    refine comes_readLine rfl h₃ h.first.text_line hfirst hlength (by omega) ?_
    intro s₄ h₄
    change Comes _ _ _ (inHeaders platform r .headers s₄ (some (h.nameString platform))
      ("" ++ platform.newString h.first.text) (es ++ pending name value))
    refine comes_continued hallowed [h.first] _ rfl (fun l hl => ?_) h₄ (by omega)
      (fun s hs => hP s ?_)
    · obtain ⟨l', -, rfl⟩ := mem_map.mp hl
      exact l'.2
    · rw [hcounted, ← Nat.add_assoc, ← Nat.add_assoc]
      exact hs

theorem comes_emptyLine {rest : List UInt8} (hroom : 0 < manager.maxBufferSize)
    (hs : Stands manager s (CR :: LF :: rest) counted) (hnone : name = none → value = "")
    (hmax : (es ++ pending name value).length ≤ manager.maxNbOfHeaders)
    (hP : ∀ s, Stands manager s rest counted → 0 < s.position →
      Comes (step manager platform) Parses P
        (inHeaders platform r .request s name "" (es ++ pending name value))) :
    Comes (step manager platform) Parses P (inHeaders platform r .headers s name value es) := by
  refine comes_call rfl (readLineStart_ends hs.within (hs.length ▸ hroom) _) ?_ ?_
  · rintro e t ⟨-, -, -, hrefused⟩
    exact hrefused (lineBegun_of_ne hs.left (by decide) fun _ => rfl)
  rintro start s₁ ⟨htakes, hbegins⟩ hparses
  cases start with
  | continued =>
    obtain ⟨-, b, bs, hleft, hb, -⟩ := hbegins
    rw [← (cons.inj (hs.left.symm.trans hleft)).1] at hb
    exact absurd hb (by decide)
  | named =>
    obtain ⟨-, b, bs, hleft, -, hCR⟩ := hbegins
    exact absurd (cons.inj (hs.left.symm.trans hleft)).1.symm hCR
  | ended =>
    obtain ⟨hleft, hposition⟩ := hbegins
    have hrest : s₁.bytesLeft = rest :=
      (cons.inj (cons.inj (hleft.symm.trans hs.left)).2).2
    change Comes _ _ _ (addHeader manager (inHeaders platform r .headers s₁ name value es) .request)
    rw [addHeader_inHeaders hnone (value_ne_of_parses hparses hs.left (by decide)) hmax]
    exact hP s₁ (hs.takes htakes hrest) hposition

/-- **The headers are read**, and put in the order they come in. -/
theorem comes_headers {todo : List HttpHeader} (hroom : 0 < manager.maxBufferSize)
    (hallowed : ∀ h ∈ todo, HttpRequest.HeaderAllowed manager platform h) {rest : List UInt8}
    (hs : Stands manager s (todo.flatMap HttpHeader.bytes ++ CR :: LF :: rest) counted)
    (hnone : name = none → value = "")
    (hmax : (es ++ pending name value).length + todo.length ≤ manager.maxNbOfHeaders)
    (hall : counted + (todo.map HttpHeader.counted).sum ≤ manager.maxHeadersLength)
    (hP : ∀ s last, Stands manager s rest (counted + (todo.map HttpHeader.counted).sum) →
      0 < s.position → Comes (step manager platform) Parses P (inHeaders platform r .request s last ""
        (es ++ pending name value ++ todo.map (HttpHeader.entry platform)))) :
    Comes (step manager platform) Parses P (inHeaders platform r .headers s name value es) := by
  induction todo generalizing s counted name value es with
  | nil =>
    refine comes_emptyLine hroom hs hnone hmax fun s hs hposition => ?_
    simpa using hP s name hs hposition
  | cons h todo ih =>
    rw [flatMap_cons, append_assoc] at hs
    simp only [map_cons, sum_cons, length_cons] at hmax hall hP
    refine comes_header (hallowed h mem_cons_self) hs hnone (by omega) (by omega) fun s hs => ?_
    refine ih (fun h' hh' => hallowed h' (mem_cons_of_mem _ hh')) hs nofun ?_ (by omega) ?_
    · rw [length_append]
      change _ + 1 + _ ≤ _
      omega
    · intro s last hs hposition
      rw [Nat.add_assoc] at hs
      simpa [pending, HttpHeader.entry] using hP s last hs hposition

end Headers

section Content

open Util

theorem entrySet_handed {platform : Platform} (r : HttpRequest)
    (hone : ¬r.hasContent platform →
      ((ofList platform.caseInsensitiveOrder (r.entries platform)).getAll
        "Content-Length").length = 1)
    {headers : MultiMap platform.caseInsensitiveOrder String}
    (hcontent : r.hasContent platform →
      headers = ofList platform.caseInsensitiveOrder (r.entries platform))
    (hno : ¬r.hasContent platform →
      headers = (ofList platform.caseInsensitiveOrder (r.entries platform)).remove
        "Content-Length") :
    ∃ es, headers.entrySet = some es ∧ ∀ name, valuesOf platform.caseInsensitiveOrder name es =
      valuesOf platform.caseInsensitiveOrder name (r.written platform) := by
  by_cases h : r.hasContent platform
  · rw [hcontent h, HttpRequest.written, if_pos h]
    refine ⟨_, entrySet_of_counted (counted_ofList _), fun name => ?_⟩
    rw [MultiMap.valuesOf_entries, MultiMap.getAll_ofList]
  · have hlength := hone h
    have hput : (ofList platform.caseInsensitiveOrder (r.entries platform)).Counted :=
      counted_ofList _
    have hcounted := counted_remove_iff (k := "Content-Length") hput
    rw [hno h, HttpRequest.written, if_neg h]
    refine ⟨_, entrySet_of_counted (hcounted.mpr fun hnil => ?_), fun name => ?_⟩
    · rw [hnil] at hlength
      cases hlength
    · rw [MultiMap.valuesOf_entries, MultiMap.getAll_remove, MultiMap.getAll_ofList]
      rw [MultiMap.getAll_ofList] at hlength
      split
      · rename_i hname
        have hsame : valuesOf platform.caseInsensitiveOrder name (r.entries platform) =
            valuesOf platform.caseInsensitiveOrder "Content-Length" (r.entries platform) := by
          rw [valuesOf, valuesOf, hname]
        rw [hsame, length_eq_one_iff.mp hlength |>.choose_spec]
        simp [valuesOf, filter_filter, ← hname]
      · rename_i hname
        simp only [valuesOf, filter_filter]
        congr 1
        refine filter_congr fun e _ => ?_
        by_cases he : platform.caseInsensitiveOrder e.1 = platform.caseInsensitiveOrder name
        · simp [he, Ne.symm hname]
        · simp [he]

/-- **The request is handed** once its headers are read. -/
theorem comes_content (hwf : r.WellFormed manager platform) {rest : List UInt8}
    {name : Option String} (hs : Stands manager s (r.content ++ rest) counted)
    (hposition : 0 < s.position) :
    Comes (step manager platform) Parses (fun t => t.phase = .handed ∧ Hands platform r t)
      (inHeaders platform r .request s name "" (r.entries platform)) := by
  have hhost : ¬(r.versionString platform = "HTTP/1.1" ∧
      (r.uriString platform).toList.head? = some '/' ∧
      (ofList platform.caseInsensitiveOrder (r.entries platform)).get "Host" = none) := by
    rintro ⟨hversion, hslash, hnone⟩
    rw [get_eq_head, MultiMap.getAll_ofList, head?_eq_none_iff] at hnone
    exact hwf.host hversion hslash hnone
  obtain ⟨headers, hrequest, hcontent, hno⟩ : ∃ headers,
      handleRequest manager (inHeaders platform r .request s name "" (r.entries platform)) =
        ⟨.content, s, r.methodString platform, r.uriString platform, r.versionString platform, name,
          "", headers, r.content.length⟩ ∧
      (r.hasContent platform →
        headers = ofList platform.caseInsensitiveOrder (r.entries platform)) ∧
      (¬r.hasContent platform →
        headers = (ofList platform.caseInsensitiveOrder (r.entries platform)).remove
          "Content-Length") := by
    by_cases h : r.hasContent platform
    · obtain ⟨v, hv, hparse⟩ := hwf.content_length h
      have hget : (ofList platform.caseInsensitiveOrder (r.entries platform)).get "Content-Length" =
          some v := by
        rw [get_eq_head, MultiMap.getAll_ofList]
        exact hv
      have hsmall : ¬(manager.maxContentLength : Int) < r.content.length := by
        have := hwf.content_small
        omega
      unfold HttpRequest.hasContent at h
      refine ⟨_, ?_, fun _ => rfl, fun hn => absurd h hn⟩
      simp [handleRequest, inHeaders, hwf.uri, hhost, h, hget, hparse, hsmall]
    · refine ⟨_, ?_, fun hp => absurd hp h, fun _ => rfl⟩
      have hnil := hwf.no_content h
      unfold HttpRequest.hasContent at h
      simp [handleRequest, inHeaders, hwf.uri, hhost, h, hnil]
  refine .next rfl fun hparses => ?_
  have hentries := entrySet_handed r
    (fun h => hparses (fun hm => h (.inl hm)) fun hm => h (.inr hm)) hcontent hno
  rw [hrequest]
  have hsmall : (r.content.length : Int) ≤ s.buffer.length := by
    have := hwf.content_small
    have := maxContentLength_le manager
    rw [hs.length]
    omega
  have htake : s.bytesLeft.take r.content.length = r.content := by
    rw [hs.left, take_left' rfl]
  by_cases hzero : r.content = []
  · have hlength : (r.content.length : Int) = 0 := by rw [hzero]; rfl
    refine .next (t := ⟨.handed, s, r.methodString platform, r.uriString platform,
      r.versionString platform, name, "", headers, r.content.length⟩) ?_ fun _ => .now ⟨rfl, ?_⟩
    · simp [step, hlength]
    · refine ⟨rfl, rfl, rfl, hentries, rfl, ?_⟩
      rw [content, hlength, hzero]
      rfl
  · have hne : (r.content.length : Int) ≠ 0 := by
      rw [Int.natCast_ne_zero]
      exact fun h => hzero (length_eq_zero_iff.mp h)
    refine comes_call (if_pos hne) (parseContent_ends hs.within hsmall) ?_ ?_
    · rintro e t ⟨-, -, -, hshort⟩
      rw [hs.left, length_append] at hshort
      change ((r.content.length + rest.length : Nat) : Int) < (r.content.length : Int) at hshort
      omega
    · rintro _ s₁ ⟨-, -, hread⟩ -
      refine .now ⟨rfl, rfl, rfl, rfl, hentries, rfl, ?_⟩
      rw [content, hread hposition, Int.toNat_natCast, htake]

end Content

/-- **The parsing of requests.**  A request that is within the limits is handed as it was written,
whatever pieces its bytes come in, if the steps of its run meet the condition for the headers; and
the bounds of the buffer hold in every state of a run on any stream, if its steps meet the condition
for the bounds. -/
theorem parsed_of_condition (manager : HttpServerManager) (platform : Platform) {buffer : List UInt8}
    (hlen : buffer.length = manager.maxBufferSize) (reads : List SocketRead) :
    (Always (step manager platform) Parses (start buffer reads) →
      ∀ (r : HttpRequest) (rest : List UInt8), r.Allowed manager platform →
        r.WellFormed manager platform → allBytes reads = r.bytes ++ rest →
        ∃ n t, exec (step manager platform) (start buffer reads) (replicate n ()) = some t ∧
          t.phase = .handed ∧ Hands platform r t) ∧
    ∀ n, Along (step manager platform) (fun t _ => Bounded t) (start buffer reads)
        (replicate n ()) →
      Visits (step manager platform) (Safe manager) (start buffer reads) (replicate n ()) := by
  refine ⟨fun halways r rest hallowed hwf hreads => ?_, fun n h => visits_safe hlen reads h⟩
  have hroom : 0 < manager.maxBufferSize := Nat.lt_of_le_of_lt (Nat.zero_le _) hallowed.method_fits
  have hcounted := hallowed.headers_length
  refine ((comes_requestLine hallowed hwf hlen hreads).trans ?_) halways
  rintro _ ⟨s, rfl, hs⟩
  have hnumber : (([] : List (String × String)) ++ pending none "").length + r.headers.length ≤
      manager.maxNbOfHeaders := by
    rw [show (([] : List (String × String)) ++ pending none "").length = 0 from rfl, Nat.zero_add]
    exact hallowed.headers_number
  change Comes _ _ _ (inHeaders platform r .headers s none "" [])
  refine comes_headers hroom hallowed.headers hs (fun _ => rfl) hnumber hcounted
    fun s last hs hposition => ?_
  exact comes_content hwf hs hposition

/-- A platform of one byte for a character. -/
def latin1 : Platform where
  newString bs := String.ofList (bs.map fun b => Char.ofNat b.toNat)
  toLowerCase s := String.ofList (s.toList.map Char.toLower)
  toUpperCase s := String.ofList (s.toList.map Char.toUpper)
  foldCase c := c.toUpper.toLower
  digit c := if c.isDigit then some (c.toNat - '0'.toNat) else none

def ascii (s : String) : List UInt8 := s.toList.map fun c => UInt8.ofNat c.toNat

/-- A piece of text that comes from the socket. -/
def piece (s : String) : SocketRead := ⟨(ascii s).headD 0, (ascii s).tail⟩

/-- Small limits. -/
def limits : HttpServerManager := ⟨10, 60, 200, 100⟩

/-- `AB: v`, on two lines. -/
def abHeader : HttpHeader where
  name := ascii "AB"
  first := ⟨ascii " ", ascii "v", by decide +kernel, by decide +kernel, by decide +kernel⟩
  continued := [⟨⟨ascii " ", ascii "w", by decide +kernel, by decide +kernel, by decide +kernel⟩,
    by decide +kernel⟩]
  name_token := by decide +kernel
  name_start := by decide +kernel

/-- `Content-Length: 2` -/
def lengthHeader : HttpHeader where
  name := ascii "Content-Length"
  first := ⟨ascii " ", ascii "2", by decide +kernel, by decide +kernel, by decide +kernel⟩
  continued := []
  name_token := by decide +kernel
  name_start := by decide +kernel

def postRequest : HttpRequest where
  method := ascii "POST"
  rawRequestUri := ascii "/a"
  httpVersion := ascii "HTTP/1.0"
  headers := [abHeader, lengthHeader]
  content := ascii "xy"
  method_token := by decide +kernel
  uri_token := by decide +kernel
  version_line := by decide +kernel

theorem postRequest_allowed : postRequest.Allowed limits latin1 where
  method_fits := by decide +kernel
  method_length := by decide +kernel
  uri_fits := by decide +kernel
  uri_length := by decide +kernel
  version_fits := by decide +kernel
  version_length := by decide +kernel
  headers := by
    intro h hh
    rcases mem_pair.mp hh with rfl | rfl
    · exact ⟨by decide +kernel, by decide +kernel, by decide +kernel, by decide +kernel⟩
    · exact ⟨by decide +kernel, by decide +kernel, by decide +kernel, by decide +kernel⟩
  headers_number := by decide +kernel
  headers_length := by decide +kernel

theorem postRequest_wellFormed : postRequest.WellFormed limits latin1 where
  method := by decide +kernel
  uri := by decide +kernel
  host := fun h => absurd h (by decide +kernel)
  content_length := fun _ => ⟨"2", by decide +kernel, by decide +kernel⟩
  content_small := by decide +kernel
  no_content := fun h => absurd (.inl (by decide +kernel)) h

/-- The buffer, as it was made. -/
def zeros : List UInt8 := List.replicate limits.maxBufferSize 0

/-- A cut of the request whose bytes are all read well. -/
def goodPieces : List SocketRead :=
  ["PO", "ST /a HTTP", "/1.0\r\nAB: v\r", "\n w\r\nContent-", "Length: 2\r\n\r", "\nxy"].map piece

/-- The request is handed as it was written, and the bounds hold on the way. -/
theorem parsed_goodPieces :
    (∃ n t, exec (step limits latin1) (start zeros goodPieces) (replicate n ()) = some t ∧
      t.phase = .handed ∧ Hands latin1 postRequest t) ∧
    Visits (step limits latin1) (Safe limits) (start zeros goodPieces) (replicate 20 ()) := by
  have hzeros : zeros.length = limits.maxBufferSize := by decide +kernel
  have h := parsed_of_condition limits latin1 hzeros goodPieces
  refine ⟨h.1 ?_ postRequest [] postRequest_allowed postRequest_wellFormed ?_, h.2 20 ?_⟩
  · have hend : exec (step limits latin1) (start zeros goodPieces) (replicate 20 ()) = none := by
      decide +kernel
    exact always_of_exec_none hend (by decide +kernel)
  · decide +kernel
  · decide +kernel

/-- A cut of the request behind the white space in front of a value. -/
def badPieces : List SocketRead :=
  ["POST /a HTTP/1.0\r\nAB: ", "v\r\n w\r\nContent-Length: 2\r\n\r\nxy"].map piece

/-- The same request cut after the white space: the read that follows overwrites the name before it
is made, and the handler gets a header that was not written. -/
theorem name_overwritten :
    postRequest.Allowed limits latin1 ∧ postRequest.WellFormed limits latin1 ∧
      allBytes badPieces = postRequest.bytes ∧
      ∃ t, exec (step limits latin1) (start zeros badPieces) (replicate 17 ()) = some t ∧
        t.phase = .handed ∧
        t.headers.entrySet = some [("content-length", "2"), ("gt", "vw")] ∧
        ¬Hands latin1 postRequest t := by
  have hrun : (exec (step limits latin1) (start zeros badPieces) (replicate 17 ())).map
      (fun t => (t.phase, t.headers.entrySet)) =
        some (.handed, some [("content-length", "2"), ("gt", "vw")]) := by decide +kernel
  obtain ⟨t, ht, hresult⟩ := Option.map_eq_some_iff.mp hrun
  obtain ⟨hphase, hentries⟩ := Prod.mk.inj hresult
  refine ⟨postRequest_allowed, postRequest_wellFormed, by decide +kernel, t, ht, hphase, hentries,
    fun hhands => ?_⟩
  obtain ⟨es, hes, hvalues⟩ := hhands.headers
  obtain rfl := Option.some.inj (hentries.symm.trans hes)
  exact absurd (hvalues "ab") (by decide +kernel)

end Ong.SongHttp
