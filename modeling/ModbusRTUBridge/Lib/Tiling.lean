/-!
# Tilings

A list of pieces, each with a start and a size, tiles `[lo, hi)` when the first piece starts at
`lo`, every other piece starts where the one before it ends, and the last one ends at `hi`.
-/

def Tiles {α : Type} (start size : α → Nat) : Nat → Nat → List α → Prop
  | lo, hi, [] => lo = hi
  | lo, hi, x :: xs => start x = lo ∧ Tiles start size (lo + size x) hi xs

namespace Tiles

variable {α : Type} {start size : α → Nat} {lo hi : Nat} {xs : List α}

theorem le (h : Tiles start size lo hi xs) : lo ≤ hi := by
  induction xs generalizing lo with
  | nil => exact Nat.le_of_eq h
  | cons x xs ih =>
    have := ih h.2
    omega

/-- Non-empty pieces are no more than what they tile. -/
theorem length_le (h : Tiles start size lo hi xs) (hpos : ∀ x ∈ xs, 0 < size x) : lo + xs.length ≤ hi := by
  induction xs generalizing lo with
  | nil => exact Nat.le_of_eq h
  | cons x xs ih =>
    have h1 := hpos x List.mem_cons_self
    have h2 := ih h.2 fun y hy => hpos y (List.mem_cons_of_mem x hy)
    simp only [List.length_cons]
    omega

end Tiles
