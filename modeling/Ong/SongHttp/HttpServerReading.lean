import Ong.Lib.Delimiter
import Ong.SongHttp.HttpServerTransaction

/-!
# What the reading methods take

The bytes left are those of the buffer that no method has taken and those still to come from the
socket.  Every method takes its token from the front of the bytes left, whatever pieces they come
in, and stays inside the buffer.

## Main results

* `readMore_ends`, `initBuffer_ends`, `skipSPandHT_ends`: what waiting for the socket changes
* `readUntilSP_ends`, `findHeaderName_ends`, `readLine_ends`, `parseContent_ends`: the tokens
-/

namespace Ong.SongHttp

open Program Util SocketRead HttpBuffer List

variable {manager : HttpServerManager} {platform : Platform} {s t u : HttpBuffer}
  {offset length n current : Nat} {prefixLength : Nat} {bs : List UInt8}

namespace HttpBuffer

/-- The position is at most what was read, and what was read is in the buffer. -/
def Within (s : HttpBuffer) : Prop := s.position ≤ s.read ∧ s.read ≤ s.buffer.length

instance : Decidable s.Within := inferInstanceAs (Decidable (_ ∧ _))

/-- The bytes read that no method has taken. -/
def window (s : HttpBuffer) : List UInt8 := s.bytesFrom s.position

theorem bytesLeft_eq : s.bytesLeft = s.window ++ allBytes s.inputStream := rfl

theorem length_bytesFrom (h : s.Within) : (s.bytesFrom offset).length = s.read - offset := by
  rw [bytesFrom, length_drop, length_take, Nat.min_eq_left h.2]

theorem length_window (h : s.Within) : s.window.length = s.read - s.position := length_bytesFrom h

theorem lt_fuel : (allBytes s.inputStream).length < s.fuel := Nat.lt_succ_self _

theorem window_eq_nil (h : s.Within) : s.window = [] ↔ s.position = s.read := by
  rw [← length_eq_zero_iff, length_window h]
  have := h.1
  omega

end HttpBuffer

/-- An exception that answers the request or ends the connection. -/
def HttpException.Refusal : HttpException → Prop
  | .socketClosed => True
  | .server _ _ => True
  | _ => False

instance : DecidablePred HttpException.Refusal
  | .socketClosed | .server _ _ => isTrue trivial
  | .indexOutOfBounds => isFalse id
  | .runtime => isFalse id
  | .outOfFuel => isFalse id

/-- The buffer was filled or compacted and nothing was taken from it. -/
structure Keeps (s t : HttpBuffer) : Prop where
  within : t.Within
  length : t.buffer.length = s.buffer.length
  left : t.bytesLeft = s.bytesLeft
  counted : t.headersLength = s.headersLength

theorem Keeps.refl (h : s.Within) : Keeps s s := ⟨h, rfl, rfl, rfl⟩

theorem Keeps.trans (h : Keeps s t) (h' : Keeps t u) : Keeps s u :=
  ⟨h'.within, h'.length.trans h.length, h'.left.trans h.left, h'.counted.trans h.counted⟩

section Bytes

variable {buffer bytes : List UInt8}

theorem length_overwrite (h : offset + bytes.length ≤ buffer.length) :
    (overwrite buffer offset bytes).length = buffer.length := by
  simp only [overwrite, length_append, length_take, length_drop]
  omega

theorem take_overwrite (bytes : List UInt8) (h : offset ≤ buffer.length) :
    (overwrite buffer offset bytes).take (offset + bytes.length) = buffer.take offset ++ bytes := by
  refine take_left' ?_
  rw [length_append, length_take, Nat.min_eq_left h]

@[simp] theorem allBytes_nil : allBytes [] = [] := rfl

theorem allBytes_cons (r : SocketRead) (rs : List SocketRead) :
    allBytes (r :: rs) = r.bytes ++ allBytes rs := rfl

theorem allBytes_unread (rs : List SocketRead) :
    allBytes (unread bytes rs) = bytes ++ allBytes rs := by
  cases bytes <;> rfl

end Bytes

theorem readStream_ends (h : offset + length ≤ s.buffer.length) :
    Ends (readStream offset length)
      (fun n t => ∃ bs rs, bs.length = n ∧ n ≤ length ∧ (0 < length → 0 < n) ∧
        allBytes s.inputStream = bs ++ allBytes rs ∧
        t = { s with buffer := overwrite s.buffer offset bs, inputStream := rs })
      (fun e t => e = .socketClosed ∧ t = s ∧ allBytes s.inputStream = []) s := by
  simp only [readStream, ends_bind, ends_get, ends_ite, ends_throw, ends_pure]
  refine ⟨fun h' => absurd h (by omega), fun _ => ⟨fun hzero => ?_, fun hpos => ?_⟩⟩
  · refine ⟨[], s.inputStream, rfl, Nat.zero_le _, fun h => absurd h (by omega), rfl, ?_⟩
    simp [overwrite]
  · rcases hs : s.inputStream with _ | ⟨r, rs⟩
    · exact ⟨rfl, rfl, rfl⟩
    · refine ⟨r.bytes.take length, unread (r.bytes.drop length) rs, rfl, ?_, fun _ => ?_, ?_, rfl⟩
      · exact length_take_le _ _
      · rw [length_take]
        exact Nat.lt_min.mpr ⟨Nat.pos_of_ne_zero hpos, Nat.succ_pos _⟩
      · rw [allBytes_unread, allBytes_cons, ← append_assoc, take_append_drop]

theorem readUpTo_ends (h : s.Within) {stop : Nat} (hstop : stop ≤ s.buffer.length) :
    Ends (readUpTo stop)
      (fun _ t => Keeps s t ∧ t.position = s.position ∧ ∃ bs, t.window = s.window ++ bs ∧
        t.read = s.read + bs.length ∧ s.read + bs.length ≤ max stop s.read ∧
        (s.read < stop → bs ≠ []) ∧ allBytes s.inputStream = bs ++ allBytes t.inputStream)
      (fun e t => e = .socketClosed ∧ t = s ∧ allBytes s.inputStream = []) s := by
  obtain ⟨hposition, hread⟩ := h
  simp only [readUpTo, ends_bind, ends_get, ends_modify]
  refine (readStream_ends (by omega)).mono ?_ fun _ _ h => h
  rintro _ _ ⟨bs, rs, rfl, hle, hpos, hall, rfl⟩
  have hlen : (overwrite s.buffer s.read bs).length = s.buffer.length :=
    length_overwrite (by omega)
  have hwindow : ((overwrite s.buffer s.read bs).take (s.read + bs.length)).drop s.position =
      s.window ++ bs := by
    rw [take_overwrite bs hread, drop_append_of_le_length]
    · rfl
    · rw [length_take]
      omega
  refine ⟨⟨⟨?_, ?_⟩, hlen, ?_, rfl⟩, rfl, bs, hwindow, rfl, by omega, fun h hbs => ?_, hall⟩
  · exact Nat.le_add_right_of_le hposition
  · change s.read + bs.length ≤ _
    rw [hlen]
    omega
  · rw [bytesLeft_eq, bytesLeft_eq, hall, ← append_assoc]
    exact congrArg (· ++ allBytes rs) hwindow
  · have := hpos (by omega)
    simp [hbs] at this

theorem compact_ends (h : s.Within) :
    Ends compact
      (fun _ t => t.buffer.length = s.buffer.length ∧ t.position = s.position ∧
        t.read = s.read - s.position ∧ t.buffer.take t.read = s.window ∧
        t.headersLength = s.headersLength ∧ t.inputStream = s.inputStream)
      (fun _ _ => False) s := by
  obtain ⟨hposition, hread⟩ := h
  have hlen : s.window.length = s.read - s.position := length_window ⟨hposition, hread⟩
  simp only [compact, ends_bind, ends_get, ends_ite, ends_throw, ends_set]
  refine ⟨fun h => absurd h (by omega), fun _ => ⟨?_, trivial, trivial, ?_, trivial, trivial⟩⟩
  · exact length_overwrite (by rw [← window, hlen]; omega)
  · have htake := take_overwrite s.window (Nat.zero_le s.buffer.length)
    rwa [Nat.zero_add, hlen, take_zero, nil_append] at htake

/-- The window is moved to the beginning of the buffer and becomes longer. -/
theorem readMore_ends (h : s.Within) :
    Ends readMore
      (fun _ t => Keeps s t ∧ t.position = 0 ∧ ∃ bs, bs ≠ [] ∧ t.window = s.window ++ bs ∧
        allBytes s.inputStream = bs ++ allBytes t.inputStream)
      (fun e t => Keeps s t ∧ e.Refusal ∧
        (allBytes s.inputStream = [] ∨ s.window.length = s.buffer.length)) s := by
  simp only [readMore, ends_bind, ends_get, ends_ite, ends_throw, ends_modify]
  refine ⟨fun hpos => ?_, fun hpos => ⟨fun hroom => ?_, fun hfull => ?_⟩⟩
  · refine (compact_ends h).mono ?_ fun _ _ h => h.elim
    rintro _ t ⟨hlen, -, hread, htake, hcounted, hstream⟩
    have hwithin := h
    obtain ⟨hposition, hle⟩ := hwithin
    have hwindow : ({ t with position := 0 } : HttpBuffer).window = s.window := by
      exact htake
    have hkeeps : Keeps s { t with position := 0 } := by
      refine ⟨⟨Nat.zero_le _, ?_⟩, hlen, ?_, hcounted⟩
      · change t.read ≤ t.buffer.length
        omega
      · rw [bytesLeft_eq, bytesLeft_eq, hwindow]
        exact congrArg (s.window ++ allBytes ·) hstream
    refine (readUpTo_ends hkeeps.within (Nat.le_of_eq hlen.symm)).mono ?_ ?_
    · rintro _ u ⟨hu, hzero, bs, hbs, -, -, hne, hall⟩
      refine ⟨hkeeps.trans hu, hzero, bs, hne ?_, hbs.trans (congrArg (· ++ bs) hwindow), ?_⟩
      · change t.read < _
        omega
      · exact hstream ▸ hall
    · rintro _ _ ⟨rfl, rfl, hnil⟩
      exact ⟨hkeeps, trivial, .inl (hstream ▸ hnil)⟩
  · refine (readUpTo_ends h (Nat.le_refl _)).mono ?_ ?_
    · rintro _ u ⟨hu, hzero, bs, hbs, -, -, hne, hall⟩
      exact ⟨hu, hzero.trans (Decidable.not_not.mp hpos), bs, hne hroom, hbs, hall⟩
    · rintro _ _ ⟨rfl, rfl, hnil⟩
      exact ⟨.refl h, trivial, .inl hnil⟩
  · have := h.2
    refine ⟨.refl h, trivial, .inr ?_⟩
    rw [length_window h]
    omega

theorem refill_ends (h : s.Within) (hnil : s.window = []) :
    Ends refill
      (fun _ t => Keeps s t ∧ t.position = 0 ∧ (0 < s.buffer.length → t.window ≠ []) ∧
        (allBytes s.inputStream = t.window ++ allBytes t.inputStream))
      (fun e t => e = .socketClosed ∧ t = s ∧ s.bytesLeft = []) s := by
  simp only [refill, ends_bind, ends_get, ends_modify]
  refine (readStream_ends (by omega)).mono ?_ ?_
  · rintro _ _ ⟨bs, rs, rfl, hle, hpos, hall, rfl⟩
    have hlen : (overwrite s.buffer 0 bs).length = s.buffer.length := length_overwrite (by omega)
    have hwindow : ((overwrite s.buffer 0 bs).take bs.length).drop 0 = bs := by
      have htake := take_overwrite bs (Nat.zero_le s.buffer.length)
      rwa [Nat.zero_add, take_zero, nil_append] at htake
    refine ⟨⟨⟨Nat.zero_le _, ?_⟩, hlen, ?_, rfl⟩, trivial, fun h hw => ?_, ?_⟩
    · change bs.length ≤ _
      rw [hlen]
      exact hle
    · rw [bytesLeft_eq, bytesLeft_eq, hnil, nil_append, hall]
      exact congrArg (· ++ allBytes rs) hwindow
    · have := hpos h
      rw [length_pos_iff] at this
      exact this (hwindow.symm.trans hw)
    · exact hall.trans (congrArg (· ++ allBytes rs) hwindow.symm)
  · rintro _ _ ⟨rfl, rfl, hall⟩
    refine ⟨rfl, rfl, ?_⟩
    rw [bytesLeft_eq, hnil, hall]
    rfl

/-- There is a byte to read, or the stream has ended. -/
theorem initBuffer_ends (h : s.Within) :
    Ends initBuffer
      (fun _ t => Keeps s t ∧ (0 < s.buffer.length → t.window ≠ []) ∧ (s.window ≠ [] → t = s))
      (fun e t => Keeps s t ∧ e.Refusal ∧ s.bytesLeft = []) s := by
  simp only [initBuffer, ends_bind, ends_get, ends_ite, ends_pure]
  have hnil : s.read = 0 ∨ s.position = s.read ↔ s.window = [] := by
    rw [window_eq_nil h]
    have := h.1
    omega
  rw [hnil]
  refine ⟨fun hw => (refill_ends h hw).mono ?_ ?_, fun hw => ?_⟩
  · rintro _ t ⟨hk, -, hne, -⟩
    exact ⟨hk, hne, fun h => absurd hw h⟩
  · rintro _ _ ⟨rfl, rfl, hleft⟩
    exact ⟨.refl h, trivial, hleft⟩
  · exact ⟨.refl h, fun _ => hw, fun _ => trivial⟩

theorem indexOf_ends (h : s.Within) {value : UInt8 → Bool} :
    Ends (indexOf offset value)
      (fun i t => t = s ∧ i = ((s.bytesFrom offset).findIdx? value).map (offset + ·))
      (fun _ _ => False) s := by
  simp only [indexOf, ends_bind, ends_get, ends_ite, ends_throw, ends_pure]
  exact ⟨fun h' => absurd h.2 (Nat.not_le.mpr h'), fun _ => ⟨trivial, trivial⟩⟩

section

variable {α : Type*} (p : α → Bool) (l : List α)

theorem drop_length_takeWhile : l.drop (l.takeWhile p).length = l.dropWhile p := by
  induction l with
  | nil => rfl
  | cons a l ih => by_cases h : p a <;> simp [h, ih]

theorem dropWhile_dropWhile : (l.dropWhile p).dropWhile p = l.dropWhile p := by
  induction l with
  | nil => rfl
  | cons a l ih => by_cases h : p a <;> simp [h, ih]

theorem dropWhile_append_dropWhile (l' : List α) :
    (l.dropWhile p ++ l').dropWhile p = (l ++ l').dropWhile p := by
  rw [dropWhile_append, dropWhile_append, dropWhile_dropWhile]

end

theorem skipRead_ends (h : s.Within) :
    Ends skipRead
      (fun _ t => t.Within ∧ t.buffer = s.buffer ∧ t.headersLength = s.headersLength ∧
        t.inputStream = s.inputStream ∧ t.window = s.window.dropWhile isBlank)
      (fun _ _ => False) s := by
  simp only [skipRead, ends_bind, ends_get, ends_ite, ends_throw, ends_set]
  refine ⟨fun h' => absurd h.2 (Nat.not_le.mpr h'), fun _ => ⟨⟨?_, h.2⟩, trivial, trivial, trivial, ?_⟩⟩
  · have hle := (takeWhile_sublist (l := s.window) isBlank).length_le
    rw [length_window h] at hle
    have := h.1
    change s.position + (s.window.takeWhile isBlank).length ≤ s.read
    omega
  · rw [← drop_length_takeWhile, window, window, bytesFrom, bytesFrom, drop_drop]

theorem skipMore_ends (h : s.Within) (hpos : 0 < s.buffer.length)
    (hn : (allBytes s.inputStream).length < n) (hskipped : s.window.dropWhile isBlank = s.window) :
    Ends (skipMore n)
      (fun _ t => t.Within ∧ t.buffer.length = s.buffer.length ∧
        t.headersLength = s.headersLength ∧ t.bytesLeft = s.bytesLeft.dropWhile isBlank ∧
        t.window ≠ [])
      (fun e t => t.Within ∧ t.buffer.length = s.buffer.length ∧ e.Refusal ∧
        s.bytesLeft.dropWhile isBlank = []) s := by
  -- the induction is on the fuel, which every refill makes up for with at least one byte
  induction n generalizing s with
  | zero => exact absurd hn (Nat.not_lt_zero _)
  | succ n ih =>
    simp only [skipMore, ends_bind, ends_get, ends_ite, ends_pure]
    refine ⟨fun hread => ?_, fun hread => ?_⟩
    · have hnil : s.window = [] := (window_eq_nil h).mpr hread
      have hleft : s.bytesLeft = allBytes s.inputStream := by rw [bytesLeft_eq, hnil, nil_append]
      refine (refill_ends h hnil).mono ?_ ?_
      · rintro _ t ⟨ht, -, hne, hall⟩
        refine (skipRead_ends ht.within).mono ?_ fun _ _ h => h.elim
        rintro _ u ⟨hu, hbuffer, hcounted, hstream, hwindow⟩
        have hlen : u.buffer.length = s.buffer.length := by rw [hbuffer, ht.length]
        have hfuel : (allBytes u.inputStream).length < n := by
          have := length_pos_iff.mpr (hne hpos)
          rw [hall, length_append] at hn
          rw [hstream]
          omega
        have hbytes : u.bytesLeft.dropWhile isBlank = s.bytesLeft.dropWhile isBlank := by
          rw [bytesLeft_eq, hwindow, hstream, dropWhile_append_dropWhile, ← hall, hleft]
        refine (ih hu (hlen ▸ hpos) hfuel ?_).mono ?_ ?_
        · rw [hwindow, dropWhile_dropWhile]
        · rintro _ v ⟨hv, hvlen, hvcounted, hvleft, hvne⟩
          exact ⟨hv, hvlen.trans hlen, hvcounted.trans (hcounted.trans ht.counted),
            hvleft.trans hbytes, hvne⟩
        · rintro _ v ⟨hv, hvlen, he, hvleft⟩
          exact ⟨hv, hvlen.trans hlen, he, hbytes.symm.trans hvleft⟩
      · rintro _ _ ⟨rfl, rfl, hleft⟩
        exact ⟨h, rfl, trivial, by rw [hleft]; rfl⟩
    · have hne : s.window ≠ [] := fun hw => hread ((window_eq_nil h).mp hw)
      refine ⟨h, trivial, trivial, ?_, hne⟩
      rw [bytesLeft_eq, dropWhile_append, hskipped, if_neg]
      simpa using hne

/-- **The white space in front of the bytes left is skipped**, and something else was read. -/
theorem skipSPandHT_ends (h : s.Within) (hpos : 0 < s.buffer.length) :
    Ends skipSPandHT
      (fun _ t => t.Within ∧ t.buffer.length = s.buffer.length ∧
        t.headersLength = s.headersLength ∧ t.bytesLeft = s.bytesLeft.dropWhile isBlank ∧
        t.window ≠ [])
      (fun e t => t.Within ∧ t.buffer.length = s.buffer.length ∧ e.Refusal ∧
        s.bytesLeft.dropWhile isBlank = []) s := by
  simp only [skipSPandHT, ends_bind, ends_get]
  refine (skipRead_ends h).mono ?_ fun _ _ h => h.elim
  rintro _ t ⟨ht, hbuffer, hcounted, hstream, hwindow⟩
  have hbytes : t.bytesLeft.dropWhile isBlank = s.bytesLeft.dropWhile isBlank := by
    rw [bytesLeft_eq, hwindow, hstream, dropWhile_append_dropWhile, ← bytesLeft_eq]
  rw [← hbuffer] at hpos ⊢
  rw [← hcounted, ← hbytes]
  exact skipMore_ends ht hpos lt_fuel (by rw [hwindow, dropWhile_dropWhile])

/-- What ends a token: the delimiter, or a carriage return in its place. -/
def delimits (d b : UInt8) : Bool := b = CR || b = d

variable (d : UInt8)

/-- The bytes left begin with a token that the buffer has room for with its delimiter. -/
def TokenFits (s : HttpBuffer) : Prop :=
  ∃ token rest, s.bytesLeft = token ++ d :: rest ∧ (∀ b ∈ token, delimits d b = false) ∧
    token.length < s.buffer.length

theorem delimits_self : delimits d d = true := by simp [delimits]

theorem delimits_CR : delimits d CR = true := by simp [delimits]

theorem getElem?_window {k : Nat} {b : UInt8} (h : s.window[k]? = some b) :
    s.buffer[s.position + k]? = some b := by
  rw [window, bytesFrom, getElem?_drop, getElem?_take] at h
  split at h
  · exact h
  · cases h

theorem Keeps.tokenFits {d : UInt8} (h : Keeps s t) (ht : TokenFits d s) : TokenFits d t := by
  obtain ⟨token, rest, hleft, htoken, hlt⟩ := ht
  exact ⟨token, rest, h.left.trans hleft, htoken, h.length ▸ hlt⟩

theorem not_tokenFits {d : UInt8} (h : ∀ b ∈ s.window, delimits d b = false)
    (hend : allBytes s.inputStream = [] ∨ s.window.length = s.buffer.length) : ¬TokenFits d s := by
  rintro ⟨token, rest, hleft, -, hlt⟩
  suffices hmem : d ∈ s.window by
    have := h d hmem
    rw [delimits_self] at this
    cases this
  rw [bytesLeft_eq] at hleft
  rcases hend with hnil | hfull
  · rw [hnil, append_nil] at hleft
    simp [hleft]
  · have hget : (s.window ++ allBytes s.inputStream)[token.length]? = some d := by
      rw [hleft]
      simp
    rw [getElem?_append_left (by omega)] at hget
    exact mem_of_getElem? hget

theorem not_tokenFits_of_CR {d : UInt8} (hd : d ≠ CR) {a r : List UInt8}
    (h : s.window = a ++ CR :: r) (ha : ∀ b ∈ a, delimits d b = false) : ¬TokenFits d s := by
  rintro ⟨token, rest, hleft, htoken, -⟩
  rw [bytesLeft_eq, h, append_assoc] at hleft
  obtain ⟨-, hCR, -⟩ := Delimiter.split_unique hleft (delimits_CR d) (delimits_self d) ha htoken
  exact hd hCR.symm

/-- The token that was found: its place, and its bytes in the window. -/
def Found (t : HttpBuffer) (index : Nat) : Prop :=
  ∃ token more, t.window = token ++ d :: more ∧ index = t.position + token.length ∧
    ∀ b ∈ token, delimits d b = false

theorem indexOf_delimiter (h : s.Within) (d : UInt8) :
    Ends (indexOf s.position (delimits d))
      (fun i t => t = s ∧ (i = none → ∀ b ∈ s.window, delimits d b = false) ∧
        ∀ index, i = some index → ∃ a b r, s.window = a ++ b :: r ∧
          index = s.position + a.length ∧ delimits d b = true ∧
          (∀ b ∈ a, delimits d b = false) ∧ s.buffer[index]? = some b)
      (fun _ _ => False) s := by
  refine (indexOf_ends h).mono ?_ fun _ _ h => h
  rintro i t ⟨rfl, rfl⟩
  refine ⟨rfl, fun hnone => ?_, fun index hindex => ?_⟩
  · rw [Option.map_eq_none_iff, findIdx?_eq_none_iff] at hnone
    exact hnone
  · obtain ⟨i, hi, rfl⟩ := Option.map_eq_some_iff.mp hindex
    obtain ⟨a, b, r, hw, rfl, hb, ha⟩ := Delimiter.findIdx?_eq_some_split hi
    refine ⟨a, b, r, hw, rfl, hb, ha, getElem?_window ?_⟩
    rw [window, hw]
    simp

theorem search_ends (h : s.Within) {d : UInt8} (hd : d ≠ CR) {message : String} {status : Nat}
    {again : Reading Nat}
    (hagain : ∀ u, Keeps s u → u.position = 0 →
      (allBytes u.inputStream).length < (allBytes s.inputStream).length →
      Ends again (fun index t => Keeps u t ∧ Found d t index)
        (fun e t => Keeps u t ∧ e.Refusal ∧ ¬TokenFits d u) u) :
    Ends (do
        match ← indexOf s.position (delimits d) with
        | none =>
          readMore
          again
        | some index =>
          if s.buffer[index]? = some CR then throw (.server message status)
          return index)
      (fun index t => Keeps s t ∧ Found d t index)
      (fun e t => Keeps s t ∧ e.Refusal ∧ ¬TokenFits d s) s := by
  simp only [ends_bind]
  refine (indexOf_delimiter h d).mono ?_ fun _ _ h => h.elim
  rintro (_ | index) t ⟨rfl, hnone, hsome⟩
  · simp only [ends_bind]
    refine (readMore_ends h).mono ?_ ?_
    · rintro _ u ⟨hu, hzero, bs, hbs, -, hall⟩
      have hlt : (allBytes u.inputStream).length < (allBytes t.inputStream).length := by
        have := length_pos_iff.mpr hbs
        rw [hall, length_append]
        omega
      refine (hagain u hu hzero hlt).mono ?_ ?_
      · rintro index v ⟨hv, hfound⟩
        exact ⟨hu.trans hv, hfound⟩
      · rintro e v ⟨hv, he, hfits⟩
        exact ⟨hu.trans hv, he, fun h => hfits (hu.tokenFits h)⟩
    · rintro e u ⟨hu, he, hend⟩
      exact ⟨hu, he, not_tokenFits (hnone rfl) hend⟩
  · obtain ⟨a, b, r, hw, rfl, hb, ha, hget⟩ := hsome index rfl
    simp only [hget, ends_ite, ends_bind, ends_throw, ends_pure]
    refine ⟨fun hCR => ?_, fun hCR => ?_⟩
    · obtain rfl := Option.some.inj hCR
      exact ⟨.refl h, trivial, not_tokenFits_of_CR hd hw ha⟩
    · have hdelimiter : b = d := by
        simp only [delimits, Bool.or_eq_true, decide_eq_true_eq] at hb
        exact hb.resolve_left fun h => hCR (congrArg some h)
      exact ⟨.refl h, a, r, hdelimiter ▸ hw, rfl, ha⟩

theorem findSP_ends (h : s.Within) (hn : (allBytes s.inputStream).length < n) :
    Ends (findSP n) (fun index t => Keeps s t ∧ Found SP t index)
      (fun e t => Keeps s t ∧ e.Refusal ∧ ¬TokenFits SP s) s := by
  induction n generalizing s with
  | zero => exact absurd hn (Nat.not_lt_zero _)
  | succ n ih =>
    exact search_ends h (by decide) fun u hu _ hlt => ih hu.within (by omega)

theorem findColon_ends (h : s.Within) (hn : (allBytes s.inputStream).length < n) :
    Ends (findColon n s.position) (fun index t => Keeps s t ∧ Found colon t index)
      (fun e t => Keeps s t ∧ e.Refusal ∧ ¬TokenFits colon s) s := by
  induction n generalizing s with
  | zero => exact absurd hn (Nat.not_lt_zero _)
  | succ n ih =>
    refine search_ends h (by decide) fun u hu hzero hlt => ?_
    have hcurrent : (if s.position ≠ 0 then s.position - s.position else s.position) =
        u.position := by
      split <;> omega
    rw [hcurrent]
    exact ih hu.within (by omega)

/-- The limits on what is read next. -/
def Limits (manager : HttpServerManager) (s : HttpBuffer) (prefixLength length : Nat) : Prop :=
  prefixLength + length ≤ manager.maxHeaderLineLength ∧
    s.headersLength + length ≤ manager.maxHeadersLength

theorem Keeps.limits (h : Keeps s t) {length : Nat} :
    Limits manager t prefixLength length ↔ Limits manager s prefixLength length := by
  rw [Limits, Limits, h.counted]

/-- A token was taken, and this many bytes were counted for it. -/
structure Takes (s : HttpBuffer) (k : Nat) (t : HttpBuffer) : Prop where
  within : t.Within
  length : t.buffer.length = s.buffer.length
  counted : t.headersLength = s.headersLength + k

theorem Keeps.takes (h : Keeps s t) (h' : Takes t n u) : Takes s n u :=
  ⟨h'.within, h'.length.trans h.length, h.counted ▸ h'.counted⟩

/-- The bytes left begin with a token that is within the limits and fits the buffer. -/
def TokenAllowed (manager : HttpServerManager) (d : UInt8) (s : HttpBuffer) : Prop :=
  ∃ token rest, s.bytesLeft = token ++ d :: rest ∧ (∀ b ∈ token, delimits d b = false) ∧
    token.length < s.buffer.length ∧ Limits manager s 0 token.length

theorem TokenAllowed.fits {d : UInt8} (h : TokenAllowed manager d s) : TokenFits d s := by
  obtain ⟨token, rest, hleft, htoken, hlt, -⟩ := h
  exact ⟨token, rest, hleft, htoken, hlt⟩

theorem Keeps.tokenAllowed {d : UInt8} (h : Keeps s t) (hs : TokenAllowed manager d s) :
    TokenAllowed manager d t := by
  obtain ⟨token, rest, hleft, htoken, hlt, hlimits⟩ := hs
  exact ⟨token, rest, h.left.trans hleft, htoken, h.length ▸ hlt, h.limits.mpr hlimits⟩

theorem not_tokenAllowed {d : UInt8} {token rest : List UInt8}
    (hleft : s.bytesLeft = token ++ d :: rest) (htoken : ∀ b ∈ token, delimits d b = false)
    (h : ¬Limits manager s 0 token.length) : ¬TokenAllowed manager d s := by
  rintro ⟨token', rest', hleft', htoken', -, hlimits⟩
  obtain ⟨rfl, -, -⟩ := Delimiter.split_unique (hleft'.symm.trans hleft) (delimits_self d)
    (delimits_self d) htoken' htoken
  exact h hlimits

theorem advance_ends {message : String} {position length : Nat} :
    Ends (advance manager message position prefixLength length)
      (fun _ t => t = { s with position := position, headersLength := s.headersLength + length } ∧
        Limits manager s prefixLength length)
      (fun e t => t = { s with position := position, headersLength := s.headersLength + length } ∧
        e.Refusal ∧ ¬Limits manager s prefixLength length) s := by
  simp only [advance, Limits, ends_bind, ends_modify, ends_get, ends_ite, ends_throw, ends_pure]
  refine ⟨fun h => ⟨trivial, trivial, by omega⟩, fun h => ⟨fun h' => ⟨trivial, trivial, ?_⟩, ?_⟩⟩
  · omega
  · exact fun h' => ⟨trivial, by omega⟩

theorem Found.take {d : UInt8} {index : Nat} (h : Found d t index) (ht : t.Within) (i : Int) :
    ∃ token, index - t.position = token.length ∧ (t.buffer.drop t.position).take token.length = token ∧
      (∀ b ∈ token, delimits d b = false) ∧ t.position + token.length ≤ t.buffer.length ∧
      ({ t with position := index + 1, headersLength := i } : HttpBuffer).Within ∧
      t.bytesLeft = token ++ d ::
        ({ t with position := index + 1, headersLength := i } : HttpBuffer).bytesLeft := by
  obtain ⟨token, more, hw, rfl, htoken⟩ := h
  have hlen := length_window ht
  rw [hw, length_append, length_cons] at hlen
  obtain ⟨hposition, hread⟩ := ht
  refine ⟨token, by omega, ?_, htoken, by omega, ⟨?_, hread⟩, ?_⟩
  · have hprefix : (t.window).take token.length = token := by rw [hw, take_left' rfl]
    rwa [window, bytesFrom, drop_take, take_take, Nat.min_eq_left (by omega)] at hprefix
  · change t.position + token.length + 1 ≤ t.read
    omega
  · have hmore : t.bytesFrom (t.position + token.length + 1) = more := by
      have hdrop := congrArg (drop (token.length + 1)) hw
      rw [window, bytesFrom, drop_drop, ← Nat.add_assoc] at hdrop
      rw [bytesFrom, hdrop, drop_append]
      simp
    rw [bytesLeft_eq, hw, bytesLeft, append_assoc, cons_append]
    change token ++ d :: (more ++ _) = token ++ d :: (t.bytesFrom (t.position + token.length + 1) ++ _)
    rw [hmore]

theorem token_ends (h : s.Within) {d : UInt8} {find : HttpBuffer → Reading Nat} {message : String}
    {Q : Nat → Nat → HttpBuffer → Prop} {E : HttpException → HttpBuffer → Prop}
    (hfind : ∀ t, t.Within → Ends (find t) (fun index u => Keeps t u ∧ Found d u index)
      (fun e u => Keeps t u ∧ e.Refusal ∧ ¬TokenFits d t) t)
    (hQ : ∀ token start t, Takes s token.length t → s.bytesLeft = token ++ d :: t.bytesLeft →
      (∀ b ∈ token, delimits d b = false) → (t.buffer.drop start).take token.length = token →
      start + token.length ≤ t.buffer.length → 0 < t.position → Q start token.length t)
    (hE : ∀ e t, t.Within → t.buffer.length = s.buffer.length → e.Refusal →
      ¬TokenAllowed manager d s → E e t) :
    Ends initBuffer (fun _ t => Ends (find t) (fun index u =>
      Ends (advance manager message (index + 1) 0 (index - u.position : Nat))
        (fun _ v => Q u.position (index - u.position) v) E u) E t) E s := by
  refine (initBuffer_ends h).mono ?_ ?_
  · rintro _ t ⟨ht, -, -⟩
    refine (hfind t ht.within).mono ?_ ?_
    · rintro index u ⟨hu, hfound⟩
      have hsu := ht.trans hu
      obtain ⟨token, hlen, htake, htoken, hle, hwithin, hleft⟩ :=
        hfound.take hu.within (u.headersLength + (index - u.position : Nat))
      rw [hlen] at hwithin hleft ⊢
      refine advance_ends.mono ?_ ?_
      · rintro _ v ⟨rfl, -⟩
        refine hQ token u.position _ (hsu.takes ⟨hwithin, rfl, rfl⟩) ?_ htoken htake hle ?_
        · rw [← hsu.left, hleft]
        · exact Nat.succ_pos index
      · rintro e v ⟨rfl, he, hlimits⟩
        refine hE _ _ hwithin hsu.length he fun hallowed => ?_
        exact not_tokenAllowed hleft htoken hlimits (hsu.tokenAllowed hallowed)
    · rintro e u ⟨hu, he, hfits⟩
      exact hE e u hu.within (hu.length.trans ht.length) he
        fun hallowed => hfits (ht.tokenAllowed hallowed).fits
  · rintro e t ⟨ht, he, hnil⟩
    refine hE e t ht.within ht.length he fun hallowed => ?_
    obtain ⟨token, rest, hleft, -⟩ := hallowed
    rw [hnil] at hleft
    exact absurd hleft.symm (by simp)

/-- No token was read, because none is allowed. -/
def NoToken (manager : HttpServerManager) (d : UInt8) (s : HttpBuffer) (e : HttpException)
    (t : HttpBuffer) : Prop :=
  t.Within ∧ t.buffer.length = s.buffer.length ∧ e.Refusal ∧ ¬TokenAllowed manager d s

/-- A token of the request line was read. -/
def TokenRead (platform : Platform) (s : HttpBuffer) (text : String) (t : HttpBuffer) : Prop :=
  ∃ token, Takes s token.length t ∧ s.bytesLeft = token ++ SP :: t.bytesLeft ∧
    (∀ b ∈ token, delimits SP b = false) ∧ text = platform.newString token ∧ 0 < t.position

/-- The name of a header was read and is still in the buffer. -/
def NameFound (s : HttpBuffer) (p : Nat × Nat) (t : HttpBuffer) : Prop :=
  ∃ token, Takes s token.length t ∧ s.bytesLeft = token ++ colon :: t.bytesLeft ∧
    (∀ b ∈ token, delimits colon b = false) ∧ (t.buffer.drop p.1).take p.2 = token ∧
    p.1 + p.2 ≤ t.buffer.length

/-- **A token of the request line**: the bytes up to the space, whatever pieces they come in. -/
theorem readUntilSP_ends (h : s.Within) :
    Ends (readUntilSP manager platform) (TokenRead platform s) (NoToken manager SP s) s := by
  simp only [readUntilSP, ends_bind, ends_get]
  refine token_ends h (Q := fun start length => Ends (newString platform start length)
    (TokenRead platform s) (NoToken manager SP s)) (fun t ht => findSP_ends ht lt_fuel) ?_
    fun e t hwithin hlen he hallowed => ⟨hwithin, hlen, he, hallowed⟩
  intro token start t ht hleft htoken htake hle hpos
  simp only [newString, ends_bind, ends_get, ends_ite, ends_throw, ends_pure]
  refine ⟨fun h => absurd h (by omega), fun _ => ⟨token, ht, hleft, htoken, ?_, hpos⟩⟩
  rw [Int.toNat_natCast, htake]

/-- **The name of a header**: the bytes up to the colon, and where they are in the buffer. -/
theorem findHeaderName_ends (h : s.Within) :
    Ends (findHeaderName manager) (NameFound s) (NoToken manager colon s) s := by
  simp only [findHeaderName, ends_bind, ends_get, ends_pure]
  refine token_ends h (Q := fun start length => NameFound s (start, length))
    (fun t ht => findColon_ends ht lt_fuel) ?_
    fun e t hwithin hlen he hallowed => ⟨hwithin, hlen, he, hallowed⟩
  intro token start t ht hleft htoken htake hle _
  exact ⟨token, ht, hleft, htoken, htake, hle⟩

/-- The bytes of the name are still in the buffer when the white space behind the colon is
skipped. -/
def NameKept (s : HttpBuffer) (start length : Nat) : Prop :=
  match skipSPandHT s with
  | .ok _ t => (t.buffer.drop start).take length = (s.buffer.drop start).take length
  | .error _ _ => True

instance {start length : Nat} : Decidable (NameKept s start length) := by
  unfold NameKept
  split <;> infer_instance

/-- **The name is built** from what is in the buffer after the white space was skipped. -/
theorem buildHeaderName_ends {start length : Nat} (h : s.Within) (hpos : 0 < s.buffer.length)
    (hle : start + length ≤ s.buffer.length) :
    Ends (buildHeaderName platform start length)
      (fun name t => Takes s 0 t ∧ t.bytesLeft = s.bytesLeft.dropWhile isBlank ∧
        (NameKept s start length → name = platform.newString ((s.buffer.drop start).take length)))
      (fun e t => t.Within ∧ t.buffer.length = s.buffer.length ∧ e.Refusal ∧
        s.bytesLeft.dropWhile isBlank = []) s := by
  simp only [buildHeaderName, ends_bind]
  have hskip := skipSPandHT_ends h hpos
  unfold NameKept
  unfold Ends at hskip ⊢
  rcases hs : skipSPandHT s with ⟨_, t⟩ | ⟨e, t⟩
  · simp only [hs] at hskip ⊢
    obtain ⟨ht, hlen, hcounted, hleft, -⟩ := hskip
    change Ends (newString platform start length) _ _ t
    simp only [newString, ends_bind, ends_get, ends_ite, ends_throw, ends_pure]
    refine ⟨fun h => absurd h (by omega), fun _ => ⟨⟨ht, hlen, ?_⟩, hleft, fun hkept => ?_⟩⟩
    · rw [hcounted, Int.natCast_zero, Int.add_zero]
    · rw [Int.toNat_natCast, hkept]
  · simp only [hs] at hskip ⊢
    exact hskip

section Lines

/-- A line feed in front of the bytes left is not taken for the end of the line: it was read, and
what is before it in the buffer is not a carriage return. -/
def LineAhead (s : HttpBuffer) : Prop :=
  s.bytesLeft.head? = some LF →
    s.window ≠ [] ∧ 0 < s.position ∧ s.buffer[s.position - 1]? ≠ some CR

instance : Decidable (LineAhead s) := by unfold LineAhead; infer_instance

/-- A line and what is behind it. -/
def IsLine (s : HttpBuffer) (line rest : List UInt8) : Prop :=
  s.bytesLeft = line ++ CR :: LF :: rest ∧ LF ∉ line

variable {line rest : List UInt8}

theorem IsLine.eq_of_split {a r : List UInt8} (h : IsLine s line rest)
    (hs : s.bytesLeft = a ++ LF :: r) (ha : LF ∉ a) : a = line ++ [CR] ∧ r = rest := by
  have heq : a ++ LF :: r = (line ++ [CR]) ++ LF :: rest := by
    rw [← hs, h.1, append_assoc]
    rfl
  have hline : LF ∉ line ++ [CR] := fun hmem => by
    rcases mem_append.mp hmem with hmem | hmem
    · exact h.2 hmem
    · exact absurd (mem_singleton.mp hmem) (by decide)
  obtain ⟨ha, -, hr⟩ := Delimiter.split_unique (p := (· = LF)) heq (by simp) (by simp)
    (fun x hx => decide_eq_false fun hLF => ha (hLF ▸ hx))
    (fun x hx => decide_eq_false fun hLF => hline (hLF ▸ hx))
  exact ⟨ha, hr⟩

theorem IsLine.mem_window (h : IsLine s line rest) (hfits : line.length + 2 ≤ s.buffer.length)
    (hend : allBytes s.inputStream = [] ∨ s.window.length = s.buffer.length) : LF ∈ s.window := by
  obtain ⟨hleft, -⟩ := h
  rw [bytesLeft_eq] at hleft
  rcases hend with hnil | hfull
  · rw [hnil, append_nil] at hleft
    simp [hleft]
  · have hget : (s.window ++ allBytes s.inputStream)[line.length + 1]? = some LF := by
      rw [hleft]
      simp
    rw [getElem?_append_left (by omega)] at hget
    exact mem_of_getElem? hget

theorem Keeps.isLine (h : Keeps s t) : IsLine t line rest ↔ IsLine s line rest := by
  rw [IsLine, IsLine, h.left]

/-- What the search of `readLine` keeps.  Once it went past a line feed, no line is in front. -/
def Searching (s : HttpBuffer) (current : Nat) : Prop :=
  (current = s.position ∧ LineAhead s ∧ s.window ≠ []) ∨
    (s.position < current ∧ ∀ line rest, ¬IsLine s line rest)

theorem Searching.le (h : Searching s current) : s.position ≤ current := by
  rcases h with ⟨rfl, -⟩ | ⟨h, -⟩
  · exact Nat.le_refl _
  · exact Nat.le_of_lt h

theorem Searching.more (h : Searching s current) (hu : Keeps s u) (hzero : u.position = 0)
    (hwindow : u.window = s.window ++ bs) (hnone : ∀ b ∈ s.bytesFrom current, b ≠ LF) :
    Searching u (if s.position ≠ 0 then current - s.position else current) := by
  have hcurrent : (if s.position ≠ 0 then current - s.position else current) =
      current - s.position := by split <;> omega
  rcases h with ⟨rfl, -, hne⟩ | ⟨hlt, hno⟩
  · refine .inl ⟨by omega, fun hhead => ?_, ?_⟩
    · obtain ⟨b, w, hw⟩ := exists_cons_of_ne_nil hne
      rw [hu.left, bytesLeft_eq, hw] at hhead
      refine absurd (Option.some.inj hhead) (hnone b ?_)
      change b ∈ s.window
      rw [hw]
      exact mem_cons_self
    · rw [hwindow]
      simp [hne]
  · exact .inr ⟨by omega, fun line rest hline => hno line rest (hu.isLine.mp hline)⟩

theorem getElem?_bytesFrom {k : Nat} {b : UInt8} (h : (s.bytesFrom offset)[k]? = some b) :
    s.buffer[offset + k]? = some b := by
  rw [bytesFrom, getElem?_drop, getElem?_take] at h
  split at h
  · exact h
  · cases h

theorem findLine_ends (h : s.Within) (hsearch : Searching s current) (hread : current ≤ s.read)
    (hn : 2 * (allBytes s.inputStream).length + (s.read - current) < n) :
    Ends (findLine n current)
      (fun index t => Keeps s t ∧ ∃ k : Nat, index = t.position + k ∧ t.position + k + 2 ≤ t.read ∧
        ∀ line rest, IsLine s line rest → k = line.length)
      (fun e t => Keeps s t ∧ e.Refusal ∧
        ∀ line rest, IsLine s line rest → ¬line.length + 2 ≤ s.buffer.length) s := by
  induction n generalizing s current with
  | zero => exact absurd hn (Nat.not_lt_zero _)
  | succ n ih =>
    have hposition := hsearch.le
    simp only [findLine, ends_bind, ends_get]
    refine (indexOf_ends h).mono ?_ fun _ _ h => h.elim
    rintro i t ⟨rfl, rfl⟩
    rcases hi : (t.bytesFrom current).findIdx? (· = LF) with _ | i
    · have hnone : ∀ b ∈ t.bytesFrom current, b ≠ LF := by
        simpa [findIdx?_eq_none_iff] using hi
      simp only [Option.map_none, ends_bind]
      refine (readMore_ends h).mono ?_ ?_
      · rintro _ u ⟨hu, hzero, bs, hbs, hwindow, hall⟩
        have hlen := length_window hu.within
        rw [hwindow, length_append, length_window h, hzero] at hlen
        have hpos := length_pos_iff.mpr hbs
        rw [hall, length_append] at hn
        refine (ih hu.within (hsearch.more hu hzero hwindow hnone) ?_ ?_).mono ?_ ?_
        · split <;> omega
        · split <;> omega
        · rintro index v ⟨hv, k, rfl, hle, hline⟩
          exact ⟨hu.trans hv, k, rfl, hle, fun line rest h => hline line rest (hu.isLine.mpr h)⟩
        · rintro e v ⟨hv, he, hline⟩
          exact ⟨hu.trans hv, he,
            fun line rest h => hu.length ▸ hline line rest (hu.isLine.mpr h)⟩
      · rintro e u ⟨hu, he, hend⟩
        refine ⟨hu, he, fun line rest hline hfits => ?_⟩
        rcases hsearch with ⟨rfl, -⟩ | ⟨-, hno⟩
        · exact hnone LF (hline.mem_window hfits hend) rfl
        · exact hno line rest hline
    · obtain ⟨a, b, r, hbytes, rfl, hb, ha⟩ := Delimiter.findIdx?_eq_some_split hi
      obtain rfl : b = LF := by simpa using hb
      have haLF : LF ∉ a := fun hmem => by simpa using ha LF hmem
      have hlen : (t.bytesFrom current).length = t.read - current := length_bytesFrom h
      rw [hbytes, length_append, length_cons] at hlen
      have hfirst : ∀ line rest, IsLine t line rest → current = t.position ∧ a = line ++ [CR] := by
        intro line rest hline
        rcases hsearch with ⟨rfl, -⟩ | ⟨-, hno⟩
        · refine ⟨rfl, (hline.eq_of_split (r := r ++ allBytes t.inputStream) ?_ haLF).1⟩
          rw [bytesLeft_eq, window, hbytes, append_assoc]
          rfl
        · exact absurd hline (hno line rest)
      simp only [Option.map_some, ends_ite, ends_pure]
      refine ⟨fun hback => ?_, fun hCR => ?_⟩
      · obtain ⟨hpos, hCR⟩ := hback
        refine ih h (.inr ⟨by omega, fun line rest hline => hCR ?_⟩) (by omega) (by omega)
        obtain ⟨rfl, rfl⟩ := hfirst line rest hline
        rw [length_append, length_singleton, ← Nat.add_assoc, Nat.add_sub_cancel]
        refine getElem?_bytesFrom ?_
        rw [hbytes]
        simp
      · have hahead : t.position < current + a.length := by
          rcases hsearch with ⟨rfl, hahead, -⟩ | ⟨hlt, -⟩
          · rcases a with _ | ⟨b, a⟩
            · obtain ⟨-, hpos, hne⟩ := hahead (by rw [bytesLeft_eq, window, hbytes]; rfl)
              exact absurd ⟨hpos, hne⟩ hCR
            · rw [length_cons]
              omega
          · omega
        refine ⟨.refl h, current + a.length - 1 - t.position, by omega, by omega, ?_⟩
        intro line rest hline
        obtain ⟨rfl, rfl⟩ := hfirst line rest hline
        rw [length_append, length_singleton]
        omega

/-- The bytes left begin with a line that is within the limits and fits the buffer. -/
def LineAllowed (manager : HttpServerManager) (prefixLength : Nat) (s : HttpBuffer) : Prop :=
  ∃ line rest, IsLine s line rest ∧ line.length + 2 ≤ s.buffer.length ∧
    Limits manager s prefixLength line.length

/-- No line was read, because none is allowed. -/
def NoLine (manager : HttpServerManager) (prefixLength : Nat) (s : HttpBuffer) (e : HttpException)
    (t : HttpBuffer) : Prop :=
  t.Within ∧ t.buffer.length = s.buffer.length ∧ e.Refusal ∧ ¬LineAllowed manager prefixLength s

/-- A line was read. -/
def LineRead (platform : Platform) (s : HttpBuffer) (text : String) (t : HttpBuffer) : Prop :=
  ∃ k, Takes s k t ∧ ∀ line rest, IsLine s line rest →
    k = line.length ∧ t.bytesLeft = rest ∧ text = platform.newString line

theorem LineAhead.initBuffer (h : LineAhead s) (hk : Keeps s t) (hsame : s.window ≠ [] → t = s) :
    LineAhead t := by
  intro hhead
  rw [hk.left] at hhead
  obtain ⟨hne, -⟩ := h hhead
  exact hsame hne ▸ h (hk.left ▸ hhead)

/-- **A line**: the bytes up to the carriage return and the line feed, whatever pieces they come
in. -/
theorem readLine_ends (h : s.Within) (hpos : 0 < s.buffer.length) (hahead : LineAhead s) :
    Ends (readLine manager platform prefixLength) (LineRead platform s)
      (NoLine manager prefixLength s) s := by
  simp only [readLine, ends_bind, ends_get]
  refine (initBuffer_ends h).mono ?_ ?_
  · rintro _ t ⟨ht, hne, hsame⟩
    have hsearch : Searching t t.position := .inl ⟨rfl, hahead.initBuffer ht hsame, hne hpos⟩
    refine (findLine_ends ht.within hsearch ht.within.1 ?_).mono ?_ ?_
    · have := lt_fuel (s := t)
      omega
    · rintro _ u ⟨hu, k, rfl, hle, hline⟩
      have hsu := ht.trans hu
      have hk : ((u.position : Int) + k) - u.position = k := by omega
      have hposition : ((u.position : Int) + k + 2).toNat = u.position + k + 2 := by omega
      rw [hk, hposition]
      have hfound : ∀ line rest, IsLine s line rest → k = line.length :=
        fun line rest h => hline line rest (ht.isLine.mpr h)
      refine advance_ends.mono ?_ ?_
      · rintro _ v ⟨rfl, -⟩
        have hread := hu.within.2
        simp only [newString, ends_bind, ends_get, ends_ite, ends_throw, ends_pure]
        refine ⟨fun h => absurd h (by omega), fun _ => ⟨k, hsu.takes ⟨⟨hle, hu.within.2⟩, rfl, rfl⟩,
          fun line rest hisLine => ?_⟩⟩
        obtain rfl := hfound line rest hisLine
        have hleft := (hsu.isLine.mpr hisLine).1
        have hlen := length_window hu.within
        refine ⟨rfl, ?_, ?_⟩
        · have hdrop := congrArg (drop (line.length + 2)) hleft
          rw [bytesLeft_eq, drop_append_of_le_length (by omega), window, bytesFrom,
            drop_drop] at hdrop
          refine hdrop.trans ?_
          simp
        · have htake := congrArg (take line.length) hleft
          rw [bytesLeft_eq, take_append_of_le_length (by omega), take_left' rfl, window,
            bytesFrom, drop_take, take_take, Nat.min_eq_left (by omega)] at htake
          rw [Int.toNat_natCast, htake]
      · rintro e v ⟨rfl, he, hlimits⟩
        refine ⟨⟨hle, hu.within.2⟩, hsu.length, he, ?_⟩
        rintro ⟨line, rest, hisLine, -, hallowed⟩
        obtain rfl := hfound line rest hisLine
        exact hlimits (hsu.limits.mpr hallowed)
    · rintro e u ⟨hu, he, hline⟩
      refine ⟨hu.within, hu.length.trans ht.length, he, ?_⟩
      rintro ⟨line, rest, hisLine, hfits, -⟩
      exact hline line rest (ht.isLine.mpr hisLine) (ht.length ▸ hfits)
  · rintro e t ⟨ht, he, hnil⟩
    refine ⟨ht.within, ht.length, he, ?_⟩
    rintro ⟨line, rest, hisLine, -⟩
    have := hisLine.1
    rw [hnil] at this
    exact absurd this.symm (by simp)

end Lines

theorem readCurrent_ends (h : s.Within) (hpos : 0 < s.buffer.length) :
    Ends readCurrent (fun b t => Keeps s t ∧ ∃ bs, t.window = b :: bs)
      (fun e t => Keeps s t ∧ e.Refusal ∧ s.bytesLeft = []) s := by
  simp only [readCurrent, ends_bind, ends_get]
  refine (initBuffer_ends h).mono ?_ fun _ _ h => h
  rintro _ t ⟨ht, hne, -⟩
  obtain ⟨b, bs, hw⟩ := exists_cons_of_ne_nil (hne hpos)
  have hget : t.buffer[t.position]? = some b := getElem?_window (k := 0) (by rw [hw]; rfl)
  rw [hget]
  exact ⟨ht, bs, hw⟩

theorem takes_one (h : Keeps s t) {b : UInt8} (hw : t.window = b :: bs) :
    Takes s 0 { t with position := t.position + 1 } ∧
      s.bytesLeft = b :: ({ t with position := t.position + 1 } : HttpBuffer).bytesLeft := by
  have hlen := length_window h.within
  rw [hw, length_cons] at hlen
  refine ⟨⟨⟨?_, h.within.2⟩, h.length, ?_⟩, ?_⟩
  · change t.position + 1 ≤ t.read
    omega
  · rw [Int.natCast_zero, Int.add_zero]
    exact h.counted
  · have hdrop := congrArg (drop 1) hw
    rw [window, bytesFrom, drop_drop] at hdrop
    rw [← h.left, bytesLeft_eq, hw, bytesLeft, bytesFrom]
    change b :: (bs ++ _) = b :: (drop (t.position + 1) (t.buffer.take t.read) ++ _)
    rw [hdrop]
    rfl

/-- How the bytes left begin, and what was taken from them. -/
def Begins (name : Option String) (s : HttpBuffer) : LineStart → HttpBuffer → Prop
  | .continued, t => name ≠ none ∧
      ∃ b rest, s.bytesLeft = b :: rest ∧ isBlank b = true ∧ t.bytesLeft = rest.dropWhile isBlank
  | .ended, t => s.bytesLeft = CR :: LF :: t.bytesLeft ∧ 0 < t.position
  | .named, t => t.bytesLeft = s.bytesLeft ∧
      ∃ b rest, s.bytesLeft = b :: rest ∧ isBlank b = false ∧ b ≠ CR

/-- The bytes left begin as a line of the headers may begin. -/
def LineBegun (name : Option String) (s : HttpBuffer) : Prop :=
  ∃ b rest, s.bytesLeft = b :: rest ∧
    (isBlank b = true → name ≠ none ∧ rest.dropWhile isBlank ≠ []) ∧ (b = CR → rest.head? = some LF)

/-- **The beginning of a line** of the headers. -/
theorem readLineStart_ends (h : s.Within) (hpos : 0 < s.buffer.length) (name : Option String) :
    Ends (readLineStart name) (fun l t => Takes s 0 t ∧ Begins name s l t)
      (fun e t => t.Within ∧ t.buffer.length = s.buffer.length ∧ e.Refusal ∧ ¬LineBegun name s)
      s := by
  simp only [readLineStart, ends_bind, ends_ite, ends_modify, ends_throw, ends_pure]
  refine (readCurrent_ends h hpos).mono ?_ ?_
  · rintro b t ⟨ht, bs, hw⟩
    obtain ⟨htakes, hleft⟩ := takes_one ht hw
    have hbegun : LineBegun name s → (isBlank b = true → name ≠ none ∧
        ({ t with position := t.position + 1 } : HttpBuffer).bytesLeft.dropWhile isBlank ≠ []) ∧
        (b = CR →
          ({ t with position := t.position + 1 } : HttpBuffer).bytesLeft.head? = some LF) := by
      rintro ⟨b', rest, hleft', hblank, hCR⟩
      obtain ⟨rfl, rfl⟩ := cons.inj (hleft.symm.trans hleft')
      exact ⟨hblank, hCR⟩
    refine ⟨fun hblank => ⟨fun hname => ?_, fun hname => ?_⟩, fun hblank => ⟨fun hCR => ?_, ?_⟩⟩
    · exact ⟨htakes.within, htakes.length, trivial, fun hb => ((hbegun hb).1 hblank).1 hname⟩
    · refine (skipSPandHT_ends htakes.within (htakes.length ▸ hpos)).mono ?_ ?_
      · rintro _ u ⟨hu, hlen, hcounted, hskipped, -⟩
        exact ⟨⟨hu, hlen.trans htakes.length, hcounted.trans htakes.counted⟩, hname, b, _, hleft,
          hblank, hskipped⟩
      · rintro e u ⟨hu, hlen, he, hnil⟩
        exact ⟨hu, hlen.trans htakes.length, he, fun hb => ((hbegun hb).1 hblank).2 hnil⟩
    · refine (readCurrent_ends htakes.within (htakes.length ▸ hpos)).mono ?_ ?_
      · rintro next u ⟨hu, bs', hw'⟩
        obtain ⟨hutakes, huleft⟩ := takes_one hu hw'
        refine ⟨fun hLF => ⟨⟨hutakes.within, hutakes.length.trans htakes.length, ?_⟩, ?_, ?_⟩,
          fun hLF => ⟨hu.within, hu.length.trans htakes.length, trivial, fun hb => hLF ?_⟩⟩
        · rw [hutakes.counted, htakes.counted, Int.natCast_zero, Int.add_zero, Int.add_zero]
        · rw [hleft, huleft, hCR, hLF]
        · exact Nat.succ_pos _
        · have hhead := (hbegun hb).2 hCR
          rw [huleft] at hhead
          exact Option.some.inj hhead
      · rintro e u ⟨hu, he, hnil⟩
        refine ⟨hu.within, hu.length.trans htakes.length, he, fun hb => ?_⟩
        have hhead := (hbegun hb).2 hCR
        rw [hnil] at hhead
        cases hhead
    · intro hCR
      refine ⟨⟨ht.within, ht.length, ?_⟩, ht.left, b, _, hleft, Bool.eq_false_iff.mpr hblank, hCR⟩
      rw [Int.natCast_zero, Int.add_zero]
      exact ht.counted
  · rintro e t ⟨ht, he, hnil⟩
    refine ⟨ht.within, ht.length, he, ?_⟩
    rintro ⟨b, rest, hleft, -⟩
    rw [hnil] at hleft
    cases hleft

section Content

variable {contentLength : Int}

theorem readContent_ends (hread : s.read ≤ s.buffer.length)
    (hcl : contentLength ≤ s.buffer.length) (hn : (allBytes s.inputStream).length < n) :
    Ends (readContent contentLength n)
      (fun _ t => t.buffer.length = s.buffer.length ∧ t.position = s.position ∧
        t.read ≤ t.buffer.length ∧ contentLength ≤ t.read ∧
        ∃ bs, t.buffer.take t.read = s.buffer.take s.read ++ bs ∧ t.read = s.read + bs.length ∧
          allBytes s.inputStream = bs ++ allBytes t.inputStream)
      (fun e t => t.buffer.length = s.buffer.length ∧ t.position = s.position ∧
        t.read ≤ t.buffer.length ∧ e.Refusal ∧
        t.read = s.read + (allBytes s.inputStream).length ∧ t.read < contentLength) s := by
  -- the induction is on the fuel: each round reads at least one byte of the stream
  induction n generalizing s with
  | zero => exact absurd hn (Nat.not_lt_zero _)
  | succ n ih =>
    simp only [readContent, readUpTo, ends_bind, ends_get, ends_ite, ends_modify, ends_pure]
    refine ⟨fun hlt => ?_, fun hle => ?_⟩
    · refine (readStream_ends (by omega)).mono ?_ ?_
      · rintro _ _ ⟨bs, rs, rfl, hlen, hpos, hall, rfl⟩
        have hbuffer : (overwrite s.buffer s.read bs).length = s.buffer.length :=
          length_overwrite (by omega)
        rw [hall, length_append] at hn
        refine (ih (s := ⟨overwrite s.buffer s.read bs, s.read + bs.length, s.position,
          s.headersLength, rs⟩) ?_ ?_ ?_).mono ?_ ?_
        · dsimp only
          omega
        · rw [hbuffer]
          exact hcl
        · dsimp only
          omega
        · rintro _ t ⟨htlen, htposition, htread, htcl, bs', htake, hread', hall'⟩
          refine ⟨htlen.trans hbuffer, htposition, htread, htcl, bs ++ bs', ?_, ?_, ?_⟩
          · rw [htake, take_overwrite bs hread, append_assoc]
          · rw [hread', length_append, Nat.add_assoc]
          · rw [hall, append_assoc]
            exact congrArg (bs ++ ·) hall'
        · rintro e t ⟨htlen, htposition, htread, he, hread', htcl⟩
          refine ⟨htlen.trans hbuffer, htposition, htread, he, ?_, htcl⟩
          rw [hread', hall, length_append, Nat.add_assoc]
      · rintro _ _ ⟨rfl, rfl, hnil⟩
        exact ⟨rfl, rfl, hread, trivial, by rw [hnil]; rfl, hlt⟩
    · exact ⟨trivial, trivial, hread, by omega, [], (append_nil _).symm, rfl, rfl⟩

/-- What is read in the end reaches the position, which the compaction leaves where it was. -/
def PositionKept (s : HttpBuffer) (contentLength : Int) : Prop :=
  s.position = 0 ∨
    s.position ≤ max (s.read - s.position) (min contentLength.toNat s.bytesLeft.length)

instance : Decidable (PositionKept s contentLength) := inferInstanceAs (Decidable (_ ∨ _))

/-- **The content**: as many of the bytes left as the length says, whatever pieces they come in. -/
theorem parseContent_ends (h : s.Within) (hcl : contentLength ≤ s.buffer.length) :
    Ends (parseContent contentLength)
      (fun _ t => t.buffer.length = s.buffer.length ∧ (PositionKept s contentLength → t.Within) ∧
        (0 < s.position → t.buffer.take contentLength.toNat = s.bytesLeft.take contentLength.toNat))
      (fun e t => t.buffer.length = s.buffer.length ∧ (PositionKept s contentLength → t.Within) ∧
        e.Refusal ∧ s.bytesLeft.length < contentLength) s := by
  simp only [parseContent, ends_bind, ends_get, ends_ite, ends_pure]
  refine ⟨fun hposition => ?_, fun hposition => ?_⟩
  · refine (compact_ends h).mono ?_ fun _ _ h => h.elim
    rintro _ t ⟨hlen, htposition, htread, htake, -, hstream⟩
    have hwindow := length_window h
    have hleft : s.bytesLeft.length = s.window.length + (allBytes s.inputStream).length := by
      rw [bytesLeft_eq, length_append]
    have hbounds := h.2
    have hfuel : (allBytes t.inputStream).length < s.fuel := hstream ▸ lt_fuel
    refine (readContent_ends (by omega) (hlen ▸ hcl) hfuel).mono ?_ ?_
    · rintro _ u ⟨hulen, huposition, huread, hucl, bs, hutake, hueq, hall⟩
      refine ⟨hulen.trans hlen, fun hkept => ⟨?_, huread⟩, fun _ => ?_⟩
      · rcases hkept with hzero | hkept <;> omega
      · rw [bytesLeft_eq, ← hstream, hall, ← htake, ← append_assoc, ← hutake,
          take_append_of_le_length, take_take, Nat.min_eq_left (by omega)]
        rw [length_take]
        omega
    · rintro e u ⟨hulen, huposition, huread, he, hueq, hucl⟩
      rw [hstream] at hueq
      refine ⟨hulen.trans hlen, fun hkept => ⟨?_, huread⟩, he, by omega⟩
      rcases hkept with hzero | hkept <;> omega
  · exact ⟨trivial, fun _ => h, fun hpos => absurd (Nat.pos_iff_ne_zero.mp hpos) hposition⟩

end Content

end Ong.SongHttp
