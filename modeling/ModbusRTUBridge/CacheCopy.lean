import ModbusRTUBridge.Fragments
/-!
# What the cache operations copy

Every operation of a cache either leaves the memory alone or copies a span of one element type;
the cells of the other type are never touched.
-/

namespace ModbusRTUBridge

section
variable (Value : Type) [MemoryCell Value]

/-- `mem'` is `mem` with `count` elements from `source` on copied to `base`. -/
def Copied (mem mem' : Memory) (base source : Ptr) (count : Nat) : Prop :=
  ∀ p, (MemoryCell.load mem' p : Value) =
    if p.within base count then MemoryCell.load mem (source.add (p.offset - base.offset)) else MemoryCell.load mem p

/-- The cells of one type are as they were. -/
def Untouched (mem mem' : Memory) : Prop := ∀ p, (MemoryCell.load mem' p : Value) = MemoryCell.load mem p

end

section
variable {Value : Type} [MemoryCell Value] {mem mem' : Memory} {base source p : Ptr} {n : Nat}

theorem Untouched.rfl : Untouched Value mem mem := fun _ => by rfl

theorem Copied.inside (h : Copied Value mem mem' base source n) {j : Nat} (hj : j < n) :
    (MemoryCell.load mem' (base.add j) : Value) = MemoryCell.load mem (source.add j) := by
  rw [h, if_pos (Ptr.within_add hj)]
  congr 2
  simp [Ptr.add]

theorem Copied.outside (h : Copied Value mem mem' base source n) (hp : ¬ p.within base n) :
    (MemoryCell.load mem' p : Value) = MemoryCell.load mem p := by
  rw [h, if_neg hp]

theorem copyValues_copied (mem : Memory) (destination source : Ptr) (count : UInt16) :
    Copied Value mem (copyValues Value mem destination source count) destination source count.toNat := by
  intro p
  unfold copyValues
  split
  · rename_i hone
    have hiff : p.within destination count.toNat ↔ p = destination := by
      subst hone
      obtain ⟨b, o⟩ := p
      obtain ⟨b', o'⟩ := destination
      simp only [Ptr.within, UInt16.toNat_one, Ptr.mk.injEq]
      omega
    rw [MemoryCell.load_rewrite]
    by_cases hp : p = destination
    · rw [if_pos hp, if_pos (hiff.2 hp), hp]
      simp
    · rw [if_neg hp, if_neg (mt hiff.1 hp)]
  · unfold copyCells
    rw [MemoryCell.load_rewrite]

/-! ## The image -/

namespace MutableImageView

/-- An element of an image. -/
def cell (v : MutableImageView Value) (mem : Memory) (address : Nat) : Value :=
  MemoryCell.load mem (v.values.add address)

/-- An image is the same in two memories. -/
def Same (v : MutableImageView Value) (mem mem' : Memory) : Prop := ∀ k < v.count.toNat, v.cell mem' k = v.cell mem k

instance [DecidableEq Value] (v : MutableImageView Value) (mem mem' : Memory) : Decidable (v.Same mem mem') :=
  inferInstanceAs (Decidable (∀ k < v.count.toNat, v.cell mem' k = v.cell mem k))

/-- No element of one image is one of the other. -/
def Apart (v w : MutableImageView Value) : Prop :=
  ∀ i < v.count.toNat, ∀ j < w.count.toNat, v.values.add i ≠ w.values.add j

instance (v w : MutableImageView Value) : Decidable (v.Apart w) :=
  inferInstanceAs (Decidable (∀ i < v.count.toNat, ∀ j < w.count.toNat, v.values.add i ≠ w.values.add j))

theorem Same.refl (v : MutableImageView Value) (mem : Memory) : v.Same mem mem := fun _ _ => by rfl

omit [MemoryCell Value] in
theorem Apart.symm {v w : MutableImageView Value} (h : v.Apart w) : w.Apart v := fun i hi j hj e => h j hj i hi e.symm

theorem Same.of_untouched (h : Untouched Value mem mem') (v : MutableImageView Value) : v.Same mem mem' :=
  fun _ _ => h _

omit [MemoryCell Value] in
theorem contains_iff {v : MutableImageView Value} {start count : UInt16} :
    v.contains start count = true ↔ count ≠ 0 ∧ v.values ≠ .null ∧ start.toNat + count.toNat ≤ v.count.toNat := by
  have h1 := start.toNat_lt
  have h2 := count.toNat_lt
  unfold contains
  by_cases hc : count = 0
  · simp [hc]
  · simp only [hc, if_false, Bool.and_eq_true, bne_iff_ne, ne_eq, decide_eq_true_eq, UInt32.le_iff_toNat_le,
      UInt32.toNat_add, UInt16.toNat_toUInt32, not_false_eq_true, true_and]
    rw [Nat.mod_eq_of_lt (by omega)]

/-- `copyFrom` fails closed, or copies the whole span. -/
theorem copyFrom_cases (mem : Memory) (v : MutableImageView Value) (start : UInt16) (source : Ptr)
    (count : UInt16) :
    (v.copyFrom mem start source count = (false, mem) ∧ (source = .null ∨ v.contains start count = false)) ∨
    (source ≠ .null ∧ v.contains start count = true ∧ (v.copyFrom mem start source count).1 = true ∧
      Copied Value mem (v.copyFrom mem start source count).2 (v.values.add start.toNat) source count.toNat) := by
  unfold copyFrom
  by_cases hbad : source = .null ∨ !v.contains start count
  · rw [if_pos hbad]
    exact Or.inl ⟨by rfl, by simpa using hbad⟩
  · rw [if_neg hbad]
    simp only [not_or, Bool.not_eq_true', Bool.not_eq_false] at hbad
    exact Or.inr ⟨hbad.1, hbad.2, by rfl, copyValues_copied _ _ _ _⟩

/-- So does `copyTo`. -/
theorem copyTo_cases (mem : Memory) (v : MutableImageView Value) (start : UInt16) (destination : Ptr)
    (count : UInt16) :
    (v.copyTo mem start destination count = (false, mem) ∧ (destination = .null ∨ v.contains start count = false)) ∨
    (destination ≠ .null ∧ v.contains start count = true ∧ (v.copyTo mem start destination count).1 = true ∧
      Copied Value mem (v.copyTo mem start destination count).2 destination (v.values.add start.toNat) count.toNat) := by
  unfold copyTo
  by_cases hbad : destination = .null ∨ !v.contains start count
  · rw [if_pos hbad]
    exact Or.inl ⟨by rfl, by simpa using hbad⟩
  · rw [if_neg hbad]
    simp only [not_or, Bool.not_eq_true', Bool.not_eq_false] at hbad
    exact Or.inr ⟨hbad.1, hbad.2, by rfl, copyValues_copied _ _ _ _⟩

omit [MemoryCell Value] in
/-- The cells a contained span is copied to. -/
theorem within_span {v : MutableImageView Value} {start count : UInt16} {k : Nat} :
    (v.values.add k).within (v.values.add start.toNat) count.toNat ↔ start.toNat ≤ k ∧ k < start.toNat + count.toNat := by
  simp only [Ptr.within, Ptr.add, true_and]
  omega

/-- A span that was copied holds the source's elements, everything else what it held. -/
theorem cell_copyFrom {v : MutableImageView Value} {start count : UInt16} (hs : source ≠ .null)
    (hc : v.contains start count = true) (k : Nat) :
    v.cell (v.copyFrom mem start source count).2 k =
      if start.toNat ≤ k ∧ k < start.toNat + count.toNat then MemoryCell.load mem (source.add (k - start.toNat))
      else v.cell mem k := by
  rcases v.copyFrom_cases mem start source count with ⟨_, hbad⟩ | ⟨_, _, _, hcopied⟩
  · rcases hbad with hbad | hbad
    · exact absurd hbad hs
    · rw [hc] at hbad
      cases hbad
  · by_cases hk : start.toNat ≤ k ∧ k < start.toNat + count.toNat
    · have hin := hcopied.inside (j := k - start.toNat) (by omega)
      rw [Ptr.add_add, show start.toNat + (k - start.toNat) = k by omega] at hin
      rw [if_pos hk]
      exact hin
    · rw [if_neg hk]
      exact hcopied.outside (mt within_span.1 hk)

/-- An image apart from the one that is copied to stays as it is. -/
theorem copyFrom_apart {v w : MutableImageView Value} (h : v.Apart w) (start : UInt16) (source : Ptr) (count : UInt16) :
    w.Same mem (v.copyFrom mem start source count).2 := by
  rcases v.copyFrom_cases mem start source count with ⟨heq, _⟩ | ⟨_, hc, _, hcopied⟩
  · rw [heq]
    exact .refl w mem
  · intro k hk
    apply hcopied.outside
    intro hin
    obtain ⟨_, _, hle⟩ := contains_iff.1 hc
    obtain ⟨hblock, hlo, hhi⟩ := hin
    simp only [Ptr.add] at hblock hlo hhi
    -- the cell would be one of the image that is copied to
    refine h (w.values.offset + k - v.values.offset) (by omega) k hk ?_
    simp only [Ptr.add, Ptr.mk.injEq]
    exact ⟨hblock.symm, by omega⟩

end MutableImageView

end

/-- Copying coils touches no register. -/
theorem copyFrom_coils_untouched (mem : Memory) (v : MutableImageView Bool) (start : UInt16) (source : Ptr)
    (count : UInt16) : Untouched UInt16 mem (v.copyFrom mem start source count).2 := by
  unfold MutableImageView.copyFrom copyValues
  repeat' split
  all_goals exact fun _ => rfl

/-- Copying registers touches no coil. -/
theorem copyFrom_holding_untouched (mem : Memory) (v : MutableImageView UInt16) (start : UInt16) (source : Ptr)
    (count : UInt16) : Untouched Bool mem (v.copyFrom mem start source count).2 := by
  unfold MutableImageView.copyFrom copyValues
  repeat' split
  all_goals exact fun _ => rfl

/-! ## The cache -/

section
variable {Value : Type} [AppliedPayload Value] {mem : Memory} {cache : DesiredAppliedCache Value}
  {w : PlannedWriteRequest} {d : CompletionDecision}

/-- `restore` is a copy from the applied to the visible image, or nothing. -/
theorem DesiredAppliedCache.restore_eq (mem : Memory) (cache : DesiredAppliedCache Value) (start count : UInt16) :
    cache.restore mem start count =
      if cache.visible.contains start count = true ∧ cache.applied.contains start count = true then
        cache.visible.copyFrom mem start (cache.applied.values.add start.toNat) count
      else (false, mem) := by
  unfold restore
  cases cache.visible.contains start count <;> cases cache.applied.contains start count <;> rfl

/-- **`captureDesired`** overwrites exactly its range of the visible image, or fails. -/
theorem DesiredAppliedCache.captureDesired_spec (mem : Memory) (cache : DesiredAppliedCache Value) (start : UInt16)
    (snapshot : Ptr) (count : UInt16) :
    cache.captureDesired mem start snapshot count = (false, mem) ∨
    ((cache.captureDesired mem start snapshot count).1 = true ∧ ∀ k,
      cache.visible.cell (cache.captureDesired mem start snapshot count).2 k =
        if start.toNat ≤ k ∧ k < start.toNat + count.toNat then MemoryCell.load mem (snapshot.add (k - start.toNat))
        else cache.visible.cell mem k) := by
  rcases cache.visible.copyFrom_cases mem start snapshot count with ⟨heq, _⟩ | ⟨hs, hc, htrue, _⟩
  · exact Or.inl heq
  · exact Or.inr ⟨htrue, fun k => MutableImageView.cell_copyFrom hs hc k⟩

/-- **`restore`** makes the two images agree on exactly its range, or fails. -/
theorem DesiredAppliedCache.restore_spec (mem : Memory) {cache : DesiredAppliedCache Value}
    (h : cache.visible.Apart cache.applied) (start count : UInt16) :
    cache.restore mem start count = (false, mem) ∨
    ((cache.restore mem start count).1 = true ∧ ∀ k,
      cache.visible.cell (cache.restore mem start count).2 k =
        if start.toNat ≤ k ∧ k < start.toNat + count.toNat then cache.applied.cell (cache.restore mem start count).2 k
        else cache.visible.cell mem k) := by
  rw [DesiredAppliedCache.restore_eq]
  by_cases hc : cache.visible.contains start count = true ∧ cache.applied.contains start count = true
  · rw [if_pos hc]
    obtain ⟨_, hne, hle⟩ := MutableImageView.contains_iff.1 hc.2
    have hsource := Ptr.add_ne_null hne start.toNat
    rcases cache.visible.copyFrom_cases mem start (cache.applied.values.add start.toNat) count with
      ⟨_, hbad⟩ | ⟨_, _, htrue, _⟩
    · rcases hbad with hbad | hbad
      · exact absurd hbad hsource
      · rw [hc.1] at hbad
        cases hbad
    · refine Or.inr ⟨htrue, fun k => ?_⟩
      rw [MutableImageView.cell_copyFrom hsource hc.1]
      by_cases hk : start.toNat ≤ k ∧ k < start.toNat + count.toNat
      · rw [if_pos hk, if_pos hk, MutableImageView.copyFrom_apart h start _ count k (by omega), Ptr.add_add,
          show start.toNat + (k - start.toNat) = k by omega]
        rfl
      · rw [if_neg hk, if_neg hk]
  · rw [if_neg hc]
    exact Or.inl rfl

/-- Recording a completion is a copy to the applied image, or nothing. -/
theorem applyAppliedImageTransition_copies (mem : Memory) (cache : DesiredAppliedCache Value) (w : PlannedWriteRequest)
    (d : CompletionDecision) : (applyAppliedImageTransition mem cache w d).2 = mem ∨
      (applyAppliedImageTransition mem cache w d).2 =
        (cache.applied.copyFrom mem w.upstreamStart (AppliedPayload.values Value w) w.quantity).2 := by
  unfold applyAppliedImageTransition DesiredAppliedCache.markApplied
  repeat' split
  all_goals first | exact Or.inl rfl | exact Or.inr rfl

/-- A decision that is not a current `MarkAppliedRange` of the write records nothing. -/
theorem applyAppliedImageTransition_none (h : d.current = false ∨ d.appliedAction = .none) :
    (applyAppliedImageTransition mem cache w d).2 = mem := by
  unfold applyAppliedImageTransition
  rcases h with h | h <;> simp only [h] <;> repeat' split
  all_goals first | rfl | simp_all

/-- A current `MarkAppliedRange` of a write of the cache's table marks the write's range. -/
theorem applyAppliedImageTransition_mark (hcur : d.current = true) (hid : d.identity = w.identity)
    (ha : d.appliedAction = .markAppliedRange) (ht : w.table = WorkTraits.table Value) :
    applyAppliedImageTransition mem cache w d =
      cache.markApplied mem w.upstreamStart (AppliedPayload.values Value w) w.quantity := by
  unfold applyAppliedImageTransition
  rw [if_neg (by simp [hcur, hid]), if_neg (by rw [ha]; decide), if_pos ht]

end

end ModbusRTUBridge
