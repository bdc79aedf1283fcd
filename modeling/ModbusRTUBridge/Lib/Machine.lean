/-!
# Deterministic machines and their traces

A machine is a step function `S → I → O × S`. A run is given by its inputs; its *trace*
records, for every input, the state it met and the output it got. Nine rules carry every result
about runs:

* `inv_final`, `inv_trace`: what every step preserves holds throughout a run;
* `simulates_final`, `simulates_final_of`, `simulates_trace_of`: an observer that only reads inputs
  and outputs stays related to the state, for all inputs or for those that meet a contract;
* `observe_tally`, `observe_collect`: counting the steps of a kind, or collecting what they say,
  is such an observer;
* `exhausts`: what every step lowers is used up after as many steps;
* `Leads`: where a run of allowed inputs may lead, a state and what was observed on the way;
* `refines`: two machines that answer alike from related states answer alike throughout;
* `translates`, `Meets.project`: a machine that hands some of its inputs on to another one;
* `answer_of_list`: an operation without input that hands out a list, and then nothing for ever;
* `final_skip`, `trace_skip`: steps that do not change the state can be deleted from a run.
-/

namespace Machine

variable {S I O G : Type}

/-- One entry of a trace. -/
structure Event (S I O : Type) where
  before : S
  input : I
  output : O

variable (step : S → I → O × S)

def final : S → List I → S
  | s, [] => s
  | s, i :: is => final (step s i).2 is

def trace : S → List I → List (Event S I O)
  | _, [] => []
  | s, i :: is => ⟨s, i, (step s i).1⟩ :: trace (step s i).2 is

@[simp] theorem final_nil (s : S) : final step s [] = s := rfl
@[simp] theorem final_cons (s : S) (i : I) (is : List I) :
    final step s (i :: is) = final step (step s i).2 is := rfl
@[simp] theorem trace_nil (s : S) : trace step s [] = [] := rfl
@[simp] theorem trace_cons (s : S) (i : I) (is : List I) :
    trace step s (i :: is) = ⟨s, i, (step s i).1⟩ :: trace step (step s i).2 is := rfl

theorem final_append (s : S) (is js : List I) : final step s (is ++ js) = final step (final step s is) js := by
  induction is generalizing s with
  | nil => rfl
  | cons i is ih => exact ih _

theorem trace_append (s : S) (is js : List I) :
    trace step s (is ++ js) = trace step s is ++ trace step (final step s is) js := by
  induction is generalizing s with
  | nil => rfl
  | cons i is ih => simp only [List.cons_append, trace_cons, final_cons, ih]

@[simp] theorem length_trace (s : S) (is : List I) : (trace step s is).length = is.length := by
  induction is generalizing s with
  | nil => rfl
  | cons i is ih => rw [trace_cons, List.length_cons, List.length_cons, ih]

theorem input_mem {s : S} {is : List I} {e : Event S I O} (he : e ∈ trace step s is) : e.input ∈ is := by
  induction is generalizing s with
  | nil => cases he
  | cons i is ih =>
    rcases List.mem_cons.1 he with rfl | he
    · exact List.mem_cons_self
    · exact List.mem_cons_of_mem _ (ih he)

/-- Cutting a trace at an event cuts the run at the input that caused it. -/
theorem trace_split {s : S} {is : List I} {pre post : List (Event S I O)} {e : Event S I O}
    (h : trace step s is = pre ++ e :: post) :
    ∃ is₁ is₂, is = is₁ ++ e.input :: is₂ ∧ pre = trace step s is₁ ∧ e.before = final step s is₁ ∧
      e.output = (step e.before e.input).1 ∧ post = trace step (step e.before e.input).2 is₂ := by
  induction is generalizing s pre with
  | nil => simp at h
  | cons i is ih =>
    cases pre with
    | nil =>
      simp only [trace_cons, List.nil_append, List.cons.injEq] at h
      obtain ⟨rfl, rfl⟩ := h
      exact ⟨[], is, rfl, rfl, rfl, rfl, rfl⟩
    | cons p pre =>
      simp only [trace_cons, List.cons_append, List.cons.injEq] at h
      obtain ⟨rfl, h⟩ := h
      obtain ⟨is₁, is₂, rfl, rfl, hb, ho, hp⟩ := ih h
      exact ⟨i :: is₁, is₂, rfl, rfl, hb, ho, hp⟩

/-! ## Invariants -/

theorem inv_final {P : S → Prop} (hstep : ∀ s i, P s → P (step s i).2) {s : S} (hs : P s) (is : List I) :
    P (final step s is) := by
  induction is generalizing s with
  | nil => exact hs
  | cons i is ih => exact ih (hstep s i hs)

/-- Every event of a run meets the invariant and records what the step returned. -/
theorem inv_trace {P : S → Prop} (hstep : ∀ s i, P s → P (step s i).2) {s : S} (hs : P s) (is : List I) :
    ∀ e ∈ trace step s is, P e.before ∧ e.output = (step e.before e.input).1 := by
  induction is generalizing s with
  | nil => simp
  | cons i is ih =>
    intro e he
    rcases List.mem_cons.1 he with rfl | he
    · exact ⟨hs, rfl⟩
    · exact ih (hstep s i hs) e he

/-! ## Potentials -/

/-- **Exhaustion.** A potential that every allowed step lowers, down to zero, is used up after as
many steps. -/
theorem exhausts {P : S → Prop} {Q : I → Prop} (V : S → Nat)
    (hstep : ∀ s i, Q i → P s → P (step s i).2 ∧ V (step s i).2 ≤ V s - 1) {s : S} (hs : P s) {is : List I}
    (his : ∀ i ∈ is, Q i) : P (final step s is) ∧ V (final step s is) ≤ V s - is.length := by
  induction is generalizing s with
  | nil => exact ⟨hs, Nat.le_refl _⟩
  | cons i is ih =>
    obtain ⟨hnext, hlower⟩ := hstep s i (his i List.mem_cons_self) hs
    obtain ⟨hfinal, hle⟩ := ih hnext fun j hj => his j (List.mem_cons_of_mem _ hj)
    refine ⟨hfinal, ?_⟩
    simp only [final_cons, List.length_cons]
    omega

/-! ## Observers -/

/-- An observer fed with the inputs and outputs of a trace. -/
def observe (f : G → I → O → G) (g : G) (tr : List (Event S I O)) : G :=
  tr.foldl (fun g e => f g e.input e.output) g

@[simp] theorem observe_nil (f : G → I → O → G) (g : G) : observe (S := S) f g [] = g := rfl
@[simp] theorem observe_cons (f : G → I → O → G) (g : G) (e : Event S I O) (tr : List (Event S I O)) :
    observe f g (e :: tr) = observe f (f g e.input e.output) tr := rfl

theorem observe_append (f : G → I → O → G) (g : G) (tr tr' : List (Event S I O)) :
    observe f g (tr ++ tr') = observe f (observe f g tr) tr' := List.foldl_append

/-- What every event of a trace lets an observer keep, it keeps. -/
theorem observe_inv {f : G → I → O → G} {P : G → Prop} {tr : List (Event S I O)}
    (hstep : ∀ g, ∀ e ∈ tr, P g → P (f g e.input e.output)) {g : G} (h : P g) : P (observe f g tr) := by
  induction tr generalizing g with
  | nil => exact h
  | cons e tr ih => exact ih (fun g e he => hstep g e (List.mem_cons_of_mem _ he)) (hstep g e List.mem_cons_self h)

/-- What an observer writes down of a part is what the observer of that part writes down. -/
theorem observe_map {H : Type} {f : G → I → O → G} {f' : H → I → O → H} {ρ : G → H}
    (hρ : ∀ g i o, ρ (f g i o) = f' (ρ g) i o) (g : G) (tr : List (Event S I O)) :
    ρ (observe f g tr) = observe f' (ρ g) tr := by
  induction tr generalizing g with
  | nil => rfl
  | cons e tr ih => rw [observe_cons, ih, hρ, observe_cons]

/-- **Simulation.** A relation between state and observer that every step preserves holds at
the end of every run. -/
theorem simulates_final {f : G → I → O → G} {R : S → G → Prop}
    (hstep : ∀ s g i, R s g → R (step s i).2 (f g i (step s i).1)) {s : S} {g : G} (h : R s g) (is : List I) :
    R (final step s is) (observe f g (trace step s is)) := by
  induction is generalizing s g with
  | nil => exact h
  | cons i is ih => exact ih (hstep s g i h)

/-- **Simulation under a contract.** Every input of the run meets a condition on the state it
finds and on what was observed before it. -/
def Meets (ok : S → G → I → Prop) (f : G → I → O → G) : S → G → List I → Prop
  | _, _, [] => True
  | s, g, i :: is => ok s g i ∧ Meets ok f (step s i).2 (f g i (step s i).1) is

instance decidableMeets (ok : S → G → I → Prop) [∀ s g i, Decidable (ok s g i)] (f : G → I → O → G) :
    (s : S) → (g : G) → (is : List I) → Decidable (Meets step ok f s g is)
  | _, _, [] => isTrue trivial
  | s, g, i :: is =>
    have := decidableMeets ok f (step s i).2 (f g i (step s i).1) is
    inferInstanceAs (Decidable (ok s g i ∧ Meets step ok f (step s i).2 (f g i (step s i).1) is))

theorem simulates_final_of {ok : S → G → I → Prop} {f : G → I → O → G} {R : S → G → Prop}
    (hstep : ∀ s g i, ok s g i → R s g → R (step s i).2 (f g i (step s i).1)) {s : S} {g : G} (h : R s g) {is : List I}
    (hm : Meets step ok f s g is) : R (final step s is) (observe f g (trace step s is)) := by
  induction is generalizing s g with
  | nil => exact h
  | cons i is ih => exact ih (hstep s g i hm.1 h) hm.2

/-- The last input of a run meets the contract on what the inputs before it left. -/
theorem Meets.concat {ok : S → G → I → Prop} {f : G → I → O → G} {s : S} {g : G} {is : List I} {i : I}
    (hm : Meets step ok f s g (is ++ [i])) :
    Meets step ok f s g is ∧ ok (final step s is) (observe f g (trace step s is)) i := by
  induction is generalizing s g with
  | nil => exact ⟨trivial, hm.1⟩
  | cons i is ih =>
    obtain ⟨h1, h2⟩ := ih hm.2
    exact ⟨⟨hm.1, h1⟩, h2⟩

/-- So does the input of every event, and the relation holds of the state it met. -/
theorem simulates_trace_of {ok : S → G → I → Prop} {f : G → I → O → G} {R : S → G → Prop}
    (hstep : ∀ s g i, ok s g i → R s g → R (step s i).2 (f g i (step s i).1)) {s : S} {g : G} (h : R s g) {is : List I}
    (hm : Meets step ok f s g is) :
    ∀ e ∈ trace step s is, ∃ g, R e.before g ∧ ok e.before g e.input ∧ e.output = (step e.before e.input).1 := by
  induction is generalizing s g with
  | nil => simp
  | cons i is ih =>
    intro e he
    rcases List.mem_cons.1 he with rfl | he
    · exact ⟨g, h, hm.1, rfl⟩
    · exact ih (hstep s g i hm.1 h) hm.2 e he

/-- An observer that writes down more than a contract reads meets the contract as well. -/
theorem Meets.enrich {H : Type} {ok : S → H → I → Prop} {f : G → I → O → G} {f' : H → I → O → H} {ρ : G → H}
    (hρ : ∀ g i o, ρ (f g i o) = f' (ρ g) i o) {s : S} {g : G} {is : List I} (hm : Meets step ok f' s (ρ g) is) :
    Meets step (fun s g i => ok s (ρ g) i) f s g is := by
  induction is generalizing s g with
  | nil => trivial
  | cons i is ih =>
    obtain ⟨hi, hm⟩ := hm
    rw [← hρ] at hm
    exact ⟨hi, ih hm⟩

/-- Counting is an observer. -/
def tally (moves : I → O → Bool) (k : Nat) (i : I) (o : O) : Nat := if moves i o then k + 1 else k

theorem observe_tally (moves : I → O → Bool) (k : Nat) (tr : List (Event S I O)) :
    observe (tally moves) k tr = k + tr.countP fun e => moves e.input e.output := by
  induction tr generalizing k with
  | nil => rfl
  | cons e tr ih =>
    rw [observe_cons, ih, List.countP_cons]
    unfold tally
    split <;> omega

variable {step}

/-- **Collecting.** An observer that keeps a list, and adds to it at every step what there is to
read off that step, ends with what the whole trace reads. -/
theorem observe_collect {X : Type} {f : G → I → O → G} {R : S → G → Prop} {φ : G → List X} {w : S → I → O → List X}
    (hstep : ∀ s g i, R s g → R (step s i).2 (f g i (step s i).1))
    (hread : ∀ s g i, R s g → φ (f g i (step s i).1) = φ g ++ w s i (step s i).1) {s : S} {g : G}
    (h : R s g) (is : List I) :
    φ (observe f g (trace step s is)) = φ g ++ (trace step s is).flatMap fun e => w e.before e.input e.output := by
  induction is generalizing s g with
  | nil => simp
  | cons i is ih =>
    rw [trace_cons, observe_cons, ih (hstep s g i h), hread s g i h, List.append_assoc]
    rfl

/-! ## Continuations -/

variable (step) in
/-- Some run of allowed inputs leads from `s`, with `g` observed so far, to `t` and `h`. -/
def Leads (ok : I → Prop) (f : G → I → O → G) (s : S) (g : G) (t : S) (h : G) : Prop :=
  ∃ is, (∀ i ∈ is, ok i) ∧ final step s is = t ∧ observe f g (trace step s is) = h

namespace Leads

variable {ok : I → Prop} {f : G → I → O → G} {s t u : S} {g h k : G}

theorem input {i : I} (hi : ok i) : Leads step ok f s g (step s i).2 (f g i (step s i).1) :=
  ⟨[i], by simpa using hi, rfl, rfl⟩

theorem trans (h₁ : Leads step ok f s g t h) (h₂ : Leads step ok f t h u k) : Leads step ok f s g u k := by
  obtain ⟨is, hok, rfl, rfl⟩ := h₁
  obtain ⟨js, hok', rfl, rfl⟩ := h₂
  refine ⟨is ++ js, ?_, final_append step s is js, ?_⟩
  · intro i hi
    rcases List.mem_append.1 hi with hi | hi
    · exact hok i hi
    · exact hok' i hi
  · rw [trace_append, observe_append]

end Leads

/-! ## Two machines -/

/-- **Refinement.** If related states give the same output to every input and stay related, two
runs of the same inputs give the same outputs. -/
theorem refines {S T I O : Type} {step : S → I → O × S} {step' : T → I → O × T} {R : S → T → Prop}
    (hstep : ∀ s t i, R s t → (step s i).1 = (step' t i).1 ∧ R (step s i).2 (step' t i).2) {s : S} {t : T} (h : R s t)
    (is : List I) :
    (trace step s is).map Event.output = (trace step' t is).map Event.output ∧ R (final step s is) (final step' t is) := by
  induction is generalizing s t with
  | nil => exact ⟨rfl, h⟩
  | cons i is ih =>
    obtain ⟨hout, hnext⟩ := hstep s t i h
    obtain ⟨houts, hfinal⟩ := ih hnext
    refine ⟨?_, hfinal⟩
    simp only [trace_cons, List.map_cons, hout, houts]

/-- **Translation.** If `step` does with some inputs what `step'` does with what they translate to,
and with the others nothing, a run of `step` is the run of `step'` on the translated inputs. -/
theorem translates {J P : Type} (step : S → I → O × S) {step' : S → J → P × S} {f : I → Option J} {g : I → O → Option P}
    (hskip : ∀ s i, f i = none → (step s i).2 = s ∧ g i (step s i).1 = none)
    (hstep : ∀ s i j, f i = some j → (step s i).2 = (step' s j).2 ∧ g i (step s i).1 = some (step' s j).1)
    (s : S) (is : List I) :
    final step s is = final step' s (is.filterMap f) ∧
    (trace step s is).filterMap (fun e => g e.input e.output) = (trace step' s (is.filterMap f)).map Event.output := by
  induction is generalizing s with
  | nil => exact ⟨rfl, rfl⟩
  | cons i is ih =>
    cases hf : f i with
    | none =>
      obtain ⟨hsame, hg⟩ := hskip s i hf
      simp only [List.filterMap_cons, hf, hg, final_cons, trace_cons, hsame]
      exact ih s
    | some j =>
      obtain ⟨hsame, hg⟩ := hstep s i j hf
      obtain ⟨hfinal, houts⟩ := ih (step' s j).2
      simp only [List.filterMap_cons, hf, hg, final_cons, trace_cons, hsame, List.map_cons, houts]
      exact ⟨hfinal, trivial⟩

/-- **Projection.** If the inputs that `φ` translates act on the part `π` of the state like
`step'`, and the others leave it alone, the part runs like `step'` under the contract and the
observer that go with it. -/
theorem Meets.project {S T I J O P G H : Type} {step : S → I → O × S} {step' : T → J → P × T} {ok : S → G → I → Prop}
    {ok' : T → H → J → Prop} {f : G → I → O → G} {f' : H → J → P → H} {π : S → T} {ρ : G → H} {φ : I → Option J}
    (hskip : ∀ s g i, φ i = none → π (step s i).2 = π s ∧ ρ (f g i (step s i).1) = ρ g)
    (hstep : ∀ s g i j, φ i = some j →
      π (step s i).2 = (step' (π s) j).2 ∧ ρ (f g i (step s i).1) = f' (ρ g) j (step' (π s) j).1)
    (hok : ∀ s g i j, φ i = some j → ok s g i → ok' (π s) (ρ g) j) {s : S} {g : G} {is : List I}
    (hm : Meets step ok f s g is) :
    Meets step' ok' f' (π s) (ρ g) (is.filterMap φ) ∧ π (final step s is) = final step' (π s) (is.filterMap φ) := by
  induction is generalizing s g with
  | nil => exact ⟨trivial, rfl⟩
  | cons i is ih =>
    obtain ⟨hi, hm⟩ := hm
    obtain ⟨hmeets, hfinal⟩ := ih hm
    cases hφ : φ i with
    | none =>
      obtain ⟨hsame, hkept⟩ := hskip s g i hφ
      rw [hsame, hkept] at hmeets
      rw [hsame] at hfinal
      simp only [List.filterMap_cons, hφ]
      exact ⟨hmeets, hfinal⟩
    | some j =>
      obtain ⟨hnext, hseen⟩ := hstep s g i j hφ
      rw [hnext, hseen] at hmeets
      rw [hnext] at hfinal
      simp only [List.filterMap_cons, hφ]
      exact ⟨⟨hok s g i j hφ hi, hmeets⟩, hfinal⟩

/-! ## Generators -/

/-- The answer to call number `k` of an operation that takes no input. -/
def answer (next : S → O × S) : S → Nat → O
  | s, 0 => (next s).1
  | s, k + 1 => answer next (next s).2 k

/-- An operation that answers with the head of what is left, seen through `f`, and leaves the tail. -/
theorem answer_of_list {X : Type} {next : S → O × S} {f : Option X → O} {R : S → List X → Prop}
    (hstep : ∀ s xs, R s xs → (next s).1 = f xs.head? ∧ R (next s).2 xs.tail) {s : S} {xs : List X} (h : R s xs) (k : Nat) :
    answer next s k = f xs[k]? := by
  induction k generalizing s xs with
  | zero =>
    rw [← List.head?_eq_getElem?]
    exact (hstep s xs h).1
  | succ k ih =>
    rw [← List.getElem?_tail]
    exact ih (hstep s xs h).2

/-! ## Elements in context -/

/-- Every element of a list, seen after the ones before it. -/
def InOrder {X : Type} (P : List X → X → Prop) (xs : List X) : Prop := ∀ pre x post, xs = pre ++ x :: post → P pre x

theorem inOrder_nil {X : Type} {P : List X → X → Prop} : InOrder P [] := by
  intro pre x post h
  simp at h

theorem InOrder.snoc {X : Type} {P : List X → X → Prop} {xs : List X} {x : X} (h : InOrder P xs) (hx : P xs x) :
    InOrder P (xs ++ [x]) := by
  intro pre y post heq
  rcases List.eq_nil_or_concat post with rfl | ⟨post, z, rfl⟩
  · obtain ⟨rfl, hy⟩ := List.append_inj' heq rfl
    cases hy
    exact hx
  · rw [List.concat_eq_append, ← List.cons_append, ← List.append_assoc] at heq
    exact h pre y post (List.append_inj' heq rfl).1

/-! ## Deleting steps that do nothing -/

/-- The inputs of the events that pass a test. -/
def keep (q : I → O → Bool) (tr : List (Event S I O)) : List I :=
  (tr.filter fun e => q e.input e.output).map Event.input

variable {q : I → O → Bool} (hnoop : ∀ s i, q i (step s i).1 = false → (step s i).2 = s)
include hnoop

/-- **Deleting no-ops keeps the final state.** -/
theorem final_skip (s : S) (is : List I) : final step s (keep q (trace step s is)) = final step s is := by
  induction is generalizing s with
  | nil => rfl
  | cons i is ih =>
    cases hp : q i (step s i).1 with
    | true =>
      have hk : keep q (trace step s (i :: is)) = i :: keep q (trace step (step s i).2 is) := by
        simp [keep, hp]
      rw [hk, final_cons, final_cons, ih]
    | false =>
      have hk : keep q (trace step s (i :: is)) = keep q (trace step (step s i).2 is) := by
        simp [keep, hp]
      rw [hk, final_cons, hnoop s i hp, ih]

/-- **Deleting no-ops keeps every other event**: the state it meets and the output it gets. -/
theorem trace_skip (s : S) (is : List I) :
    trace step s (keep q (trace step s is)) =
      (trace step s is).filter fun e => q e.input e.output := by
  induction is generalizing s with
  | nil => rfl
  | cons i is ih =>
    cases hp : q i (step s i).1 with
    | true =>
      have hk : keep q (trace step s (i :: is)) = i :: keep q (trace step (step s i).2 is) := by
        simp [keep, hp]
      rw [hk, trace_cons, ih, trace_cons]
      simp [hp]
    | false =>
      have hk : keep q (trace step s (i :: is)) = keep q (trace step (step s i).2 is) := by
        simp [keep, hp]
      rw [hk, trace_cons, hnoop s i hp, ih]
      simp [hp]

end Machine
