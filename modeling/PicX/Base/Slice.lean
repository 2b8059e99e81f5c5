import Mathlib.Algebra.BigOperators.Group.List.Basic
import Mathlib.Algebra.Ring.Nat
import PicX.Base.Text

/-!
# Slices of a text by bytes

A text is indexed by the bytes of its UTF-8 encoding, and a slice has to start and to end between
two characters.

* `byteLength` — how many bytes a text takes.
* `slice` — the characters between two places, or nothing when one of them is inside a character.
* `dropBytes_add` — going on from a place.
* `takeBytes_two` — the slices of two bytes.
-/

namespace PicX

/-- How many bytes some characters take. -/
def byteLength (cs : List Char) : Nat := (cs.map Char.utf8Size).sum

/-- The characters of the first `n` bytes. -/
def takeBytes : Nat → List Char → Option (List Char)
  | 0, _ => some []
  | _ + 1, [] => none
  | n + 1, c :: cs =>
    if c.utf8Size ≤ n + 1 then (takeBytes (n + 1 - c.utf8Size) cs).map (c :: ·) else none

/-- The characters after the first `n` bytes. -/
def dropBytes : Nat → List Char → Option (List Char)
  | 0, cs => some cs
  | _ + 1, [] => none
  | n + 1, c :: cs => if c.utf8Size ≤ n + 1 then dropBytes (n + 1 - c.utf8Size) cs else none

/-- `&text[start..stop]`. -/
def slice (cs : List Char) (start stop : Nat) : Option (List Char) :=
  (dropBytes start cs).bind (takeBytes (stop - start))

@[simp] theorem byteLength_nil : byteLength [] = 0 := rfl

@[simp] theorem byteLength_cons (c : Char) (cs : List Char) :
    byteLength (c :: cs) = c.utf8Size + byteLength cs := by
  simp [byteLength]

@[simp] theorem takeBytes_zero (cs : List Char) : takeBytes 0 cs = some [] := by
  cases cs <;> rfl

@[simp] theorem dropBytes_zero (cs : List Char) : dropBytes 0 cs = some cs := by
  cases cs <;> rfl

theorem dropBytes_cons {n : Nat} {c : Char} {cs : List Char} (h : c.utf8Size ≤ n) :
    dropBytes n (c :: cs) = dropBytes (n - c.utf8Size) cs := by
  have hpos := c.utf8Size_pos
  cases n with
  | zero => omega
  | succ n => rw [dropBytes, if_pos h]

/-- Going on from a place. -/
theorem dropBytes_add {m n : Nat} {cs rest : List Char} (h : dropBytes m cs = some rest) :
    dropBytes (m + n) cs = dropBytes n rest := by
  induction cs generalizing m with
  | nil =>
    cases m with
    | zero =>
      cases h
      rw [Nat.zero_add]
    | succ m => cases h
  | cons c cs ih =>
    cases m with
    | zero =>
      cases h
      rw [Nat.zero_add]
    | succ m =>
      rw [dropBytes] at h
      split_ifs at h with hle
      rw [dropBytes_cons (by omega), ← ih h]
      congr 1
      omega

/-- A slice of two bytes is two characters of one byte or one of two. -/
theorem takeBytes_two (c : Char) (cs : List Char) : takeBytes 2 (c :: cs) =
    if c.utf8Size = 1 then
      match cs with
      | [] => none
      | c' :: _ => if c'.utf8Size = 1 then some [c, c'] else none
    else if c.utf8Size = 2 then some [c] else none := by
  have hpos := c.utf8Size_pos
  rw [takeBytes]
  by_cases hone : c.utf8Size = 1
  · rw [if_pos (by omega), if_pos hone, hone]
    cases cs with
    | nil => rfl
    | cons c' cs =>
      have hpos' := c'.utf8Size_pos
      rw [takeBytes]
      by_cases hone' : c'.utf8Size = 1
      · simp [hone']
      · rw [if_neg (by omega)]
        simp [hone']
  · rw [if_neg hone]
    by_cases htwo : c.utf8Size = 2
    · simp [htwo]
    · rw [if_neg (by omega), if_neg htwo]

end PicX
