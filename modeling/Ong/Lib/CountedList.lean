import Mathlib.Data.List.Basic

/-!
# Lists with a count

A text says how many entries follow and then has them one after another.  A reader that goes on
where the text is too short returns as many entries as the count says, but only as many as are there
have been read.

## Main results

* `takeEntries_eq_some_iff`: the reader returns the entries that are there exactly if they fit
* `fits_const`: entries of one size
-/

namespace Ong.CountedList

variable {α β : Type*}

/-- The first entries of a text, if they are complete. -/
def takeEntries (entry : List β → Option (α × List β)) : Nat → List β → Option (List α)
  | 0, _ => some []
  | n + 1, text => (entry text).bind fun (a, rest) => (takeEntries entry n rest).map (a :: ·)

/-- What a reader that always returns something returns for a count, and what it leaves. -/
def readMany (read : List β → α × List β) : Nat → List β → List α × List β
  | 0, text => ([], text)
  | n + 1, text =>
    let (a, rest) := read text
    let (l, rest) := readMany read n rest
    (a :: l, rest)

/-- Entries of the sizes that the text says fit in it. -/
def Fits (size : List β → Nat) : Nat → List β → Prop
  | 0, _ => True
  | n + 1, text => size text ≤ text.length ∧ Fits size n (text.drop (size text))

/-- The reader reads an entry that is there. -/
structure Reads (entry : List β → Option (α × List β)) (read : List β → α × List β)
    (size : List β → Nat) : Prop where
  entry_eq : ∀ text, size text ≤ text.length → entry text = some (read text)
  read_rest : ∀ text, size text ≤ text.length → (read text).2 = text.drop (size text)
  entry_none : ∀ text, text.length < size text → entry text = none

variable {entry : List β → Option (α × List β)} {read : List β → α × List β} {size : List β → Nat}
  {n : Nat} {text : List β}

theorem length_readMany (n : Nat) (text : List β) : (readMany read n text).1.length = n := by
  induction n generalizing text with
  | zero => rfl
  | succ n ih => exact congrArg (· + 1) (ih _)

/-- What the reader returns is what is there exactly if the entries fit. -/
theorem takeEntries_eq_some_iff (h : Reads entry read size) {l : List α} :
    takeEntries entry n text = some l ↔ Fits size n text ∧ (readMany read n text).1 = l := by
  induction n generalizing text l with
  | zero =>
    rw [takeEntries, Option.some_inj]
    exact (true_and ([] = l)).to_iff.symm
  | succ n ih =>
    by_cases hsize : size text ≤ text.length
    · have hrest := h.read_rest text hsize
      rw [takeEntries, h.entry_eq text hsize, Option.bind_some, Option.map_eq_some_iff]
      simp only [ih, Fits, readMany, hrest, hsize, true_and]
      constructor
      · rintro ⟨l, ⟨hfits, rfl⟩, rfl⟩
        exact ⟨hfits, rfl⟩
      · rintro ⟨hfits, rfl⟩
        exact ⟨_, ⟨hfits, rfl⟩, rfl⟩
    · rw [takeEntries, h.entry_none text (Nat.lt_of_not_le hsize)]
      exact ⟨nofun, fun hfits => absurd hfits.1.1 hsize⟩

theorem readMany_rest {k : Nat} (h : Reads entry read fun _ => k)
    (hfits : Fits (fun _ => k) n text) : (readMany read n text).2 = text.drop (k * n) := by
  induction n generalizing text with
  | zero => rfl
  | succ n ih =>
    have hrest : (read text).2 = text.drop k := h.read_rest text hfits.1
    have hfits' : Fits (fun _ => k) n (read text).2 := by
      rw [hrest]
      exact hfits.2
    calc (readMany read (n + 1) text).2 = (readMany read n (read text).2).2 := rfl
      _ = (read text).2.drop (k * n) := ih hfits'
      _ = text.drop (k * (n + 1)) := by rw [hrest, List.drop_drop, Nat.mul_succ, Nat.add_comm k]

/-- Entries of one size fit if their bytes are there. -/
theorem fits_const (k : Nat) : Fits (fun _ => k) n text ↔ k * n ≤ text.length := by
  induction n generalizing text with
  | zero => exact ⟨fun _ => Nat.zero_le _, fun _ => trivial⟩
  | succ n ih =>
    rw [Fits, ih, List.length_drop, Nat.mul_succ]
    omega

end Ong.CountedList
