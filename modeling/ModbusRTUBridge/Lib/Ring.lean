/-!
# Ring buffers

`window cells cap head size` is the list a ring of `cap` cells holds: `size` cells from
`head` on, wrapping by compare and subtract. Pushing writes the cell after the window, popping
moves the head, and writing the head cell changes the first element only.
-/

namespace Ring

variable {α : Type}

/-- The physical index of logical position `k`. -/
def slot (cap head k : Nat) : Nat := if cap ≤ head + k then head + k - cap else head + k

/-- The head after a pop. -/
def advance (cap head : Nat) : Nat := if head + 1 = cap then 0 else head + 1

/-- The list held by the ring. -/
def window (cells : Nat → α) (cap head size : Nat) : List α :=
  (List.range size).map fun k => cells (slot cap head k)

variable {cap head size k : Nat}

theorem slot_lt (hh : head < cap) (hk : k < cap) : slot cap head k < cap := by
  unfold slot; split <;> omega

theorem slot_inj {j : Nat} (hj : j < cap) (hk : k < cap) :
    slot cap head j = slot cap head k ↔ j = k := by
  unfold slot; split <;> split <;> omega

@[simp] theorem slot_zero (hh : head < cap) : slot cap head 0 = head := by
  unfold slot; split <;> omega

theorem advance_lt (hh : head < cap) : advance cap head < cap := by
  unfold advance; split <;> omega

theorem slot_advance (hk : k + 1 < cap) : slot cap (advance cap head) k = slot cap head (k + 1) := by
  unfold slot advance; split <;> split <;> split <;> omega

@[simp] theorem length_window (cells : Nat → α) : (window cells cap head size).length = size := by
  simp [window]

@[simp] theorem window_zero (cells : Nat → α) : window cells cap head 0 = [] := rfl

theorem window_congr {f g : Nat → α} (h : ∀ k, k < size → f (slot cap head k) = g (slot cap head k)) :
    window f cap head size = window g cap head size := by
  unfold window
  exact List.map_congr_left fun k hk => h k (List.mem_range.1 hk)

theorem getElem?_window (cells : Nat → α) (k : Nat) :
    (window cells cap head size)[k]? = if k < size then some (cells (slot cap head k)) else none := by
  unfold window
  rw [List.getElem?_map]
  split
  · rename_i hk
    rw [List.getElem?_range hk, Option.map_some]
  · rename_i hk
    rw [List.getElem?_eq_none (by simpa using hk), Option.map_none]

/-- Writing the cell after the window and growing it appends. -/
theorem window_push (cells : Nat → α) (x : α) (hs : size < cap) :
    window (fun j => if j = slot cap head size then x else cells j) cap head (size + 1) =
      window cells cap head size ++ [x] := by
  simp only [window, List.range_succ, List.map_append, List.map_cons, List.map_nil, if_pos]
  congr 1
  refine List.map_congr_left fun k hk => if_neg fun e => ?_
  have hk' := List.mem_range.1 hk
  have := (slot_inj (by omega) hs).1 e
  omega

/-- The window is its head cell followed by the window after a pop. -/
theorem window_cons (cells : Nat → α) (hh : head < cap) (hs : size + 1 ≤ cap) :
    window cells cap head (size + 1) = cells head :: window cells cap (advance cap head) size := by
  simp only [window, List.range_succ_eq_map, List.map_cons, List.map_map, slot_zero hh]
  congr 1
  apply List.map_congr_left
  intro k hk
  have hk' := List.mem_range.1 hk
  simp only [Function.comp_apply]
  rw [slot_advance (by omega)]

/-- Writing the head cell replaces the first element. -/
theorem window_set_head (cells : Nat → α) (x : α) (hh : head < cap) (hs : size + 1 ≤ cap) :
    window (fun j => if j = head then x else cells j) cap head (size + 1) =
      x :: window cells cap (advance cap head) size := by
  rw [window_cons _ hh hs, if_pos rfl]
  congr 1
  refine window_congr fun k hk => if_neg fun e => ?_
  rw [slot_advance (by omega)] at e
  have h0 := slot_zero hh
  have := (slot_inj (show k + 1 < cap by omega) (show 0 < cap by omega)).1 (by rw [h0]; exact e)
  omega

end Ring
