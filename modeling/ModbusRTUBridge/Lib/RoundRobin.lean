/-!
# Round robin with bounded interruptions

A cursor walks the clients `0, …, n - 1` cyclically and serves the first one that waits; up to
`M` interruptions may come between two services. A client that waits all the time is served
within `n * (M + 1)` turns: serving another client brings the cursor closer, an interruption
uses up budget, and budget is only refilled by a service.
-/

namespace RoundRobin

/-- How far client `i` is ahead of the cursor `s`, going round. -/
def ahead (n s i : Nat) : Nat := if s ≤ i then i - s else n + i - s

/-- The cursor after client `i` was served. -/
def after (n i : Nat) : Nat := if i + 1 = n then 0 else i + 1

variable {n M s i j : Nat}

theorem ahead_lt (hs : s < n) (hi : i < n) : ahead n s i < n := by
  unfold ahead; split <;> omega

theorem after_lt (hi : i < n) : after n i < n := by
  unfold after; split <;> omega

theorem after_eq_mod (hi : i < n) : after n i = (i + 1) % n := by
  unfold after
  split
  · rename_i he
    rw [he, Nat.mod_self]
  · exact (Nat.mod_eq_of_lt (by omega)).symm

theorem ahead_inj (hs : s < n) (hi : i < n) (hj : j < n) (h : ahead n s i = ahead n s j) : i = j := by
  unfold ahead at h; split at h <;> split at h <;> omega

/-- Going on one place, short of a full round. -/
theorem ahead_step (hs : s < n) (hi : i < n) (h : ahead n s i + 1 < n) : ahead n s (after n i) = ahead n s i + 1 := by
  unfold ahead after at *; split at h <;> split <;> split <;> omega

/-- Serving a client on the way to `i` brings the cursor past it. -/
theorem ahead_after (hs : s < n) (hi : i < n) (hj : j < n) (hle : ahead n s j < ahead n s i) :
    ahead n (after n j) i + ahead n s j + 1 = ahead n s i := by
  unfold ahead after at *; split at hle <;> split at hle <;> split <;> split <;> omega

/-- The `k` clients from `s` on, going round. -/
def walk (n : Nat) : Nat → Nat → List Nat
  | _, 0 => []
  | s, k + 1 => s :: walk n (after n s) k

@[simp] theorem length_walk (n s k : Nat) : (walk n s k).length = k := by
  induction k generalizing s with
  | zero => rfl
  | succ k ih => rw [walk, List.length_cons, ih]

/-- Going straight on, and over the end. -/
theorem walk_straight {k : Nat} (h : s + k ≤ n) : walk n s k = List.range' s k := by
  induction k generalizing s with
  | zero => rfl
  | succ k ih =>
    rw [walk, List.range'_succ]
    congr 1
    cases k with
    | zero => rfl
    | succ k =>
      have hafter : after n s = s + 1 := if_neg (by omega)
      rw [hafter, ih (by omega)]

theorem walk_over {k : Nat} (hs : s < n) (h : n ≤ s + k) : walk n s k = List.range' s (n - s) ++ walk n 0 (s + k - n) := by
  induction k generalizing s with
  | zero => omega
  | succ k ih =>
    obtain ⟨d, hd⟩ : ∃ d, n - s = d + 1 := ⟨n - s - 1, by omega⟩
    rw [walk, hd, List.range'_succ, List.cons_append]
    congr 1
    by_cases hlast : s + 1 = n
    · obtain rfl : d = 0 := by omega
      have hafter : after n s = 0 := if_pos hlast
      rw [hafter, List.range'_zero, List.nil_append]
      congr 1
      omega
    · have hafter : after n s = s + 1 := if_neg hlast
      rw [hafter, ih (by omega) (by omega)]
      congr 2 <;> omega

/-- **A full round** is `s, …, n - 1, 0, …, s - 1`. -/
theorem walk_round (hs : s < n) : walk n s n = List.range' s (n - s) ++ List.range s := by
  rw [walk_over hs (by omega), Nat.add_sub_cancel, walk_straight (by omega), List.range_eq_range']

inductive Turn where
  | interrupt
  | serve (client : Nat)

structure State where
  cursor : Nat
  used : Nat

def next (n : Nat) (s : State) : Turn → State
  | .interrupt => ⟨s.cursor, s.used + 1⟩
  | .serve j => ⟨after n j, 0⟩

/-- A turn the policy may take while `target` waits: an interruption within the budget, or the
service of a client not behind `target`. -/
def Legal (n M target : Nat) (s : State) : Turn → Prop
  | .interrupt => s.used < M
  | .serve j => j < n ∧ ahead n s.cursor j ≤ ahead n s.cursor target

def LegalRun (n M target : Nat) : State → List Turn → Prop
  | _, [] => True
  | s, t :: ts => Legal n M target s t ∧ LegalRun n M target (next n s t) ts

/-- Turns `target` may still have to wait, its own included. -/
def wait (n M target : Nat) (s : State) : Nat := ahead n s.cursor target * (M + 1) + (M - s.used) + 1

theorem wait_le {st : State} (hs : st.cursor < n) (hi : i < n) : wait n M i st ≤ n * (M + 1) := by
  have h := ahead_lt hs hi
  have hmul : (ahead n st.cursor i + 1) * (M + 1) ≤ n * (M + 1) := Nat.mul_le_mul_right _ h
  rw [Nat.succ_mul] at hmul
  unfold wait
  omega

/-- One turn that does not serve `i` shortens its wait. -/
theorem wait_next {st : State} {t : Turn} (hs : st.cursor < n) (hi : i < n) (hl : Legal n M i st t)
    (hne : t ≠ .serve i) : (next n st t).cursor < n ∧ wait n M i (next n st t) < wait n M i st := by
  cases t with
  | interrupt =>
    have hused : st.used < M := hl
    refine ⟨hs, ?_⟩
    simp only [wait, next]
    omega
  | serve j =>
    obtain ⟨hj, hle⟩ := hl
    have hji : j ≠ i := fun e => hne (by rw [e])
    have hlt : ahead n st.cursor j < ahead n st.cursor i := by
      rcases Nat.lt_or_eq_of_le hle with h | h
      · exact h
      · exact absurd (ahead_inj hs hj hi h) hji
    have hcloser := ahead_after hs hi hj hlt
    refine ⟨after_lt hj, ?_⟩
    have hmul : (ahead n (after n j) i + 1) * (M + 1) ≤ ahead n st.cursor i * (M + 1) :=
      Nat.mul_le_mul_right _ (by omega)
    rw [Nat.succ_mul] at hmul
    simp only [wait, next]
    omega

/-- **Bounded waiting.** -/
theorem served_within {st : State} (hs : st.cursor < n) (hi : i < n) {ts : List Turn} (hl : LegalRun n M i st ts)
    {k : Nat} (hk : wait n M i st ≤ k) (hlen : k ≤ ts.length) : .serve i ∈ ts.take k := by
  induction ts generalizing st k with
  | nil =>
    have : 0 < wait n M i st := Nat.succ_pos _
    simp at hlen
    omega
  | cons t ts ih =>
    obtain ⟨k, rfl⟩ : ∃ m, k = m + 1 := ⟨k - 1, by have : 0 < wait n M i st := Nat.succ_pos _; omega⟩
    rw [List.take_succ_cons]
    by_cases ht : t = .serve i
    · exact ht ▸ List.mem_cons_self
    · obtain ⟨hcur, hlt⟩ := wait_next hs hi hl.1 ht
      exact List.mem_cons_of_mem _ (ih hcur hl.2 (by omega) (by simpa using hlen))

end RoundRobin
