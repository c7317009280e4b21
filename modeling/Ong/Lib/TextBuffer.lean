import Mathlib

/-!
# Buffers that hold a text

A buffer of a fixed number of bytes holds a text up to the first zero.  What lies behind the zero is
of no meaning for the text, but it comes to light when the zero is written over.

## Main results

* `strcat_eq_none_iff`, `text_strcat`: a text that does not fit, and one that does
* `isSome_foldlM_strcat`: texts one behind the other
-/

namespace Ong

open List

/-- Bytes copied into a memory from an index on. -/
def overlay (mem : List UInt8) (i : Nat) (data : List UInt8) : List UInt8 :=
  mem.take i ++ (data ++ mem.drop (i + data.length))

theorem length_overlay {mem data : List UInt8} {i n : Nat} (hmem : mem.length = n)
    (h : i + data.length ≤ n) : (overlay mem i data).length = n := by
  simp only [overlay, length_append, length_take, length_drop]
  omega

/-- `n` bytes with a zero among them. -/
structure TextBuffer (n : Nat) where
  mem : List UInt8
  length_mem : mem.length = n
  ends : 0 ∈ mem

namespace TextBuffer

variable {n i : Nat} {mem data : List UInt8}

/-- A buffer of zeros. -/
def zero (n : Nat) : TextBuffer (n + 1) where
  mem := List.replicate (n + 1) 0
  length_mem := List.length_replicate
  ends := List.mem_replicate.mpr ⟨Nat.succ_ne_zero n, rfl⟩

/-- `mem[i] = 0` -/
def terminate (mem : List UInt8) (hmem : mem.length = n) (i : Nat) (hi : i < n) : TextBuffer n where
  mem := mem.set i 0
  length_mem := List.length_set.trans hmem
  ends := List.mem_iff_getElem.mpr
    ⟨i, by rw [List.length_set, hmem]; exact hi, List.getElem_set_self _⟩

@[simp]
theorem mem_terminate (hmem : mem.length = n) (hi : i < n) :
    (terminate mem hmem i hi).mem = mem.set i 0 := rfl

def strlen (dst : TextBuffer n) : Nat := dst.mem.idxOf 0

/-- The text that is held. -/
def text (dst : TextBuffer n) : List UInt8 := dst.mem.take dst.strlen

/-- `strcat`, with nothing for a text that does not fit. -/
def strcat (dst : TextBuffer n) (src : List UInt8) : Option (TextBuffer n) :=
  if h : dst.strlen + src.length < n then
    some (terminate (overlay dst.mem dst.strlen src)
      (length_overlay dst.length_mem (Nat.le_of_lt h)) (dst.strlen + src.length) h)
  else none

/-- `strcpy`, with nothing for a text that does not fit. -/
def strcpy (dst : TextBuffer n) (src : List UInt8) : Option (TextBuffer n) :=
  if h : 0 + src.length < n then
    some (terminate (overlay dst.mem 0 src) (length_overlay dst.length_mem (Nat.le_of_lt h))
      (0 + src.length) h)
  else none

/-! ## Lengths -/

variable (dst : TextBuffer n)

theorem strlen_lt : dst.strlen < n := by
  have hlt := idxOf_lt_length_of_mem dst.ends
  rwa [dst.length_mem] at hlt

theorem length_text : dst.text.length = dst.strlen := by
  have hlt := dst.strlen_lt
  rw [text, length_take, dst.length_mem]
  omega

theorem zero_notMem_text : (0 : UInt8) ∉ dst.text := fun hmem =>
  Nat.lt_irrefl _ ((mem_take_iff_idxOf_lt dst.ends).mp hmem)

variable {dst}

theorem strlen_terminate (hmem : mem.length = n) (hi : i < n) (hzero : (0 : UInt8) ∉ mem.take i) :
    (terminate mem hmem i hi).strlen = i := by
  have htake : (mem.set i 0).take i = mem.take i := take_set_of_le (Nat.le_refl i)
  have hlen : (mem.take i).length = i := by
    rw [length_take]
    omega
  have hdrop : (mem.set i 0).drop i = 0 :: mem.drop (i + 1) := by
    rw [drop_eq_getElem_cons (by rw [length_set]; omega), getElem_set_self,
      drop_set_of_lt (Nat.lt_succ_self i)]
  rw [strlen, mem_terminate, ← take_append_drop i (mem.set i 0), htake, hdrop,
    idxOf_append_of_notMem hzero, hlen, idxOf_cons_self, Nat.add_zero]

theorem text_terminate (hmem : mem.length = n) (hi : i < n) (hzero : (0 : UInt8) ∉ mem.take i) :
    (terminate mem hmem i hi).text = mem.take i := by
  rw [text, strlen_terminate hmem hi hzero]
  exact take_set_of_le (Nat.le_refl i)

theorem take_overlay (h : i + data.length ≤ mem.length) :
    (overlay mem i data).take (i + data.length) = mem.take i ++ data := by
  have hlen : (mem.take i ++ data).length = i + data.length := by
    rw [length_append, length_take]
    omega
  rw [overlay, ← append_assoc, ← hlen, take_left]

variable {dst' : TextBuffer n} {src : List UInt8}

theorem strcat_eq_none_iff : dst.strcat src = none ↔ n ≤ dst.strlen + src.length := by
  rw [strcat]
  split
  · next h => exact iff_of_false (Option.some_ne_none _) (Nat.not_le.mpr h)
  · next h => exact iff_of_true rfl (Nat.not_lt.mp h)

theorem text_strcat (h : dst.strcat src = some dst') (hzero : (0 : UInt8) ∉ src) :
    dst'.text = dst.text ++ src := by
  rw [strcat] at h
  split at h
  · next hlt =>
    obtain rfl := Option.some.inj h
    have htake : (overlay dst.mem dst.strlen src).take (dst.strlen + src.length) =
        dst.text ++ src := take_overlay (by rw [dst.length_mem]; exact Nat.le_of_lt hlt)
    rw [text_terminate _ _ (by
      rw [htake, mem_append]
      exact not_or.mpr ⟨dst.zero_notMem_text, hzero⟩), htake]
  · cases h

theorem strlen_strcat (h : dst.strcat src = some dst') (hzero : (0 : UInt8) ∉ src) :
    dst'.strlen = dst.strlen + src.length := by
  rw [← length_text, text_strcat h hzero, length_append, length_text]

/-- **Texts one behind the other** fit if they do together. -/
theorem isSome_foldlM_strcat {texts : List (List UInt8)}
    (hzero : ∀ text ∈ texts, (0 : UInt8) ∉ text) :
    (texts.foldlM strcat dst).isSome = true ↔ dst.strlen + (texts.map length).sum < n := by
  induction texts generalizing dst with
  | nil => exact iff_of_true rfl dst.strlen_lt
  | cons text texts ih =>
    obtain ⟨htext, hzero⟩ := forall_mem_cons.mp hzero
    rw [foldlM_cons, map_cons, sum_cons]
    cases hcat : dst.strcat text with
    | none =>
      have hle := strcat_eq_none_iff.mp hcat
      refine iff_of_false Bool.false_ne_true ?_
      omega
    | some dst' =>
      show (texts.foldlM strcat dst').isSome = true ↔ _
      rw [ih hzero, strlen_strcat hcat htext, Nat.add_assoc]

end TextBuffer

end Ong
