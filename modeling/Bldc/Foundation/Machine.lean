import Mathlib.Algebra.BigOperators.Group.List.Basic
import Mathlib.Algebra.GroupWithZero.Nat
import Mathlib.Data.List.Induction
import Mathlib.Tactic.Common

/-!
# Machines that consume inputs and emit outputs

A machine reacts to one input at a time with a new state and any number of
outputs. The rules say what a whole run keeps from what one step keeps.
-/

namespace Bldc.Foundation

structure Machine (σ ι ο : Type) where
  step : σ → ι → σ × List ο

variable {σ τ ι ο : Type}

namespace Machine

/-- The state after all inputs, and the outputs in order. -/
def run (M : Machine σ ι ο) (state : σ) : List ι → σ × List ο
  | [] => (state, [])
  | input :: rest =>
      ((M.run (M.step state input).1 rest).1,
        (M.step state input).2 ++ (M.run (M.step state input).1 rest).2)

variable (M : Machine σ ι ο)

@[simp] theorem run_nil (state : σ) : M.run state [] = (state, []) := rfl

@[simp] theorem run_cons (state : σ) (input : ι) (rest : List ι) :
    M.run state (input :: rest) =
      ((M.run (M.step state input).1 rest).1,
        (M.step state input).2 ++ (M.run (M.step state input).1 rest).2) := rfl

theorem run_append (state : σ) (inputs rest : List ι) :
    M.run state (inputs ++ rest) =
      ((M.run (M.run state inputs).1 rest).1,
        (M.run state inputs).2 ++ (M.run (M.run state inputs).1 rest).2) := by
  induction inputs generalizing state with
  | nil => simp
  | cons input inputs ih => simp [ih]

/-- A part of the state that evolves like a machine of its own. -/
theorem run_view {M : Machine σ ι ο} {M' : Machine τ ι ο} (view : τ → σ)
    (h : ∀ state input, (view (M'.step state input).1, (M'.step state input).2) =
      M.step (view state) input) (state : τ) (inputs : List ι) :
    (view (M'.run state inputs).1, (M'.run state inputs).2) = M.run (view state) inputs := by
  induction inputs generalizing state with
  | nil => rfl
  | cons input inputs ih => simp [← h, ← ih]

/-- A part of the state that some inputs drive and the others leave alone, with the
outputs that belong to it. -/
theorem run_project {ι' ο' : Type} {M : Machine σ ι ο} {M' : Machine τ ι' ο'} (view : τ → σ)
    {inp : ι' → Option ι} {out : ο' → Option ο}
    (hsome : ∀ state input i, inp input = some i →
      (view (M'.step state input).1, (M'.step state input).2.filterMap out) =
        M.step (view state) i)
    (hnone : ∀ state input, inp input = none →
      view (M'.step state input).1 = view state ∧ (M'.step state input).2.filterMap out = [])
    (state : τ) (inputs : List ι') :
    (view (M'.run state inputs).1, (M'.run state inputs).2.filterMap out) =
      M.run (view state) (inputs.filterMap inp) := by
  induction inputs generalizing state with
  | nil => rfl
  | cons input inputs ih =>
      cases hinput : inp input with
      | none =>
          obtain ⟨hview, hout⟩ := hnone state input hinput
          rw [run_cons, List.filterMap_cons_none hinput, List.filterMap_append, hout,
            List.nil_append, ih, hview]
      | some i =>
          rw [run_cons, List.filterMap_cons_some hinput, List.filterMap_append, run_cons,
            ← hsome state input i hinput, ← ih]

/-- What every step keeps, a run keeps. -/
theorem run_invariant {M : Machine σ ι ο} {I : σ → Prop}
    (h : ∀ state input, I state → I (M.step state input).1) {state : σ} (hstate : I state)
    (inputs : List ι) : I (M.run state inputs).1 := by
  induction inputs generalizing state with
  | nil => exact hstate
  | cons input inputs ih => exact ih (h state input hstate)

/-- Every step of the run has the property. -/
def Always (M : Machine σ ι ο) (P : σ → ι → Prop) (state : σ) : List ι → Prop
  | [] => True
  | input :: rest => P state input ∧ M.Always P (M.step state input).1 rest

section Always

variable {M : Machine σ ι ο} {P Q : σ → ι → Prop}

theorem always_congr (h : ∀ state input, P state input ↔ Q state input) (state : σ)
    (inputs : List ι) : M.Always P state inputs ↔ M.Always Q state inputs := by
  induction inputs generalizing state with
  | nil => rfl
  | cons input inputs ih => simp only [Always, h, ih]

/-- Properties that agree where the invariant holds. -/
theorem always_congr_of_invariant {I : σ → Prop}
    (hI : ∀ state input, I state → I (M.step state input).1)
    (h : ∀ state input, I state → (P state input ↔ Q state input)) {state : σ} (hstate : I state)
    (inputs : List ι) : M.Always P state inputs ↔ M.Always Q state inputs := by
  induction inputs generalizing state with
  | nil => rfl
  | cons input inputs ih =>
      exact and_congr (h state input hstate) (ih (hI state input hstate))

/-- A property that follows where an invariant of its steps holds. -/
theorem Always.imp_of_invariant {I : σ → Prop}
    (hI : ∀ state input, I state → P state input → I (M.step state input).1)
    (h : ∀ state input, I state → P state input → Q state input) {state : σ} (hstate : I state)
    {inputs : List ι} (hall : M.Always P state inputs) : M.Always Q state inputs := by
  induction inputs generalizing state with
  | nil => trivial
  | cons input inputs ih =>
      exact ⟨h state input hstate hall.1, ih (hI state input hstate hall.1) hall.2⟩

theorem Always.imp (h : ∀ state input, P state input → Q state input) {state : σ}
    {inputs : List ι} (hall : M.Always P state inputs) : M.Always Q state inputs :=
  hall.imp_of_invariant (I := fun _ => True) (fun _ _ _ _ => trivial) (fun s i _ => h s i) trivial

theorem Always.and {state : σ} {inputs : List ι} (hP : M.Always P state inputs)
    (hQ : M.Always Q state inputs) :
    M.Always (fun state input => P state input ∧ Q state input) state inputs := by
  induction inputs generalizing state with
  | nil => trivial
  | cons input inputs ih => exact ⟨⟨hP.1, hQ.1⟩, ih hP.2 hQ.2⟩

theorem always_of_forall {inputs : List ι} (h : ∀ state, ∀ input ∈ inputs, P state input)
    (state : σ) : M.Always P state inputs := by
  induction inputs generalizing state with
  | nil => trivial
  | cons input inputs ih =>
      exact ⟨h state input List.mem_cons_self,
        ih (fun state i hi => h state i (List.mem_cons_of_mem input hi)) _⟩

theorem always_append (M : Machine σ ι ο) (P : σ → ι → Prop) (state : σ) (inputs rest : List ι) :
    M.Always P state (inputs ++ rest) ↔
      M.Always P state inputs ∧ M.Always P (M.run state inputs).1 rest := by
  induction inputs generalizing state with
  | nil => simp [Always]
  | cons input inputs ih => simp [Always, ih, and_assoc]

/-- Every step, by the inputs that come before it. -/
theorem always_iff_forall_step {state : σ} {inputs : List ι} :
    M.Always P state inputs ↔ ∀ before input after, inputs = before ++ input :: after →
      P (M.run state before).1 input := by
  constructor
  · rintro hall before input after rfl
    exact ((always_append M P state before (input :: after)).1 hall).2.1
  · intro h
    induction inputs generalizing state with
    | nil => trivial
    | cons input inputs ih =>
        refine ⟨h [] input inputs rfl, ih fun before next after heq => ?_⟩
        exact h (input :: before) next after (congrArg (input :: ·) heq)

/-- What every step with the property keeps, a run of such steps keeps. -/
theorem run_invariant_of_always {I : σ → Prop}
    (h : ∀ state input, I state → P state input → I (M.step state input).1) {state : σ}
    (hstate : I state) {inputs : List ι} (hall : M.Always P state inputs) :
    I (M.run state inputs).1 := by
  induction inputs generalizing state with
  | nil => exact hstate
  | cons input inputs ih => exact ih (h state input hstate hall.1) hall.2

/-- If the steps with the property are those that keep the invariant and emit what they
may, the states that are reached have it and the outputs are right exactly if the steps
have the property. -/
theorem always_iff_run {I : σ → Prop} {R : ο → Prop}
    (h : ∀ state input, I state →
      (P state input ↔ I (M.step state input).1 ∧ ∀ output ∈ (M.step state input).2, R output))
    {state : σ} (hstate : I state) (inputs : List ι) :
    M.Always P state inputs ↔
      (∀ before after, inputs = before ++ after → I (M.run state before).1) ∧
        ∀ output ∈ (M.run state inputs).2, R output := by
  induction inputs generalizing state with
  | nil =>
      refine ⟨fun _ => ⟨fun before after heq => ?_, by simp⟩, fun _ => trivial⟩
      rw [(List.append_eq_nil_iff.1 heq.symm).1]
      exact hstate
  | cons input inputs ih =>
      constructor
      · intro hall
        obtain ⟨hnext, hout⟩ := (h state input hstate).1 hall.1
        obtain ⟨hstates, houts⟩ := (ih hnext).1 hall.2
        refine ⟨fun before after heq => ?_, fun output houtput => ?_⟩
        · cases before with
          | nil => exact hstate
          | cons first before =>
              obtain ⟨rfl, rfl⟩ := List.cons.inj heq
              exact hstates before after rfl
        · exact (List.mem_append.1 houtput).elim (hout output) (houts output)
      · rintro ⟨hstates, houts⟩
        have hnext : I (M.step state input).1 := hstates [input] inputs rfl
        refine ⟨(h state input hstate).2 ⟨hnext, fun output houtput => ?_⟩,
          (ih hnext).2 ⟨fun before after heq => ?_, fun output houtput => ?_⟩⟩
        · exact houts output (List.mem_append_left _ houtput)
        · exact hstates (input :: before) after (congrArg (input :: ·) heq)
        · exact houts output (List.mem_append_right _ houtput)

/-- The same for the states alone. -/
theorem always_iff_forall_prefix {I : σ → Prop}
    (h : ∀ state input, I state → (P state input ↔ I (M.step state input).1)) {state : σ}
    (hstate : I state) (inputs : List ι) :
    M.Always P state inputs ↔
      ∀ before after, inputs = before ++ after → I (M.run state before).1 := by
  have hrun := always_iff_run (M := M) (R := fun _ => True)
    (fun state input hI => (h state input hI).trans (by simp)) hstate inputs
  simpa using hrun

/-- What holds of every state that is reached holds before every step. -/
theorem always_of_forall_prefix {I : σ → Prop} {state : σ} {inputs : List ι}
    (h : ∀ before after, inputs = before ++ after → I (M.run state before).1) :
    M.Always (fun state _ => I state) state inputs := by
  induction inputs generalizing state with
  | nil => trivial
  | cons input inputs ih =>
      refine ⟨h [] _ rfl, ih fun before after heq => ?_⟩
      exact h (input :: before) after (congrArg (input :: ·) heq)

/-- What every step with the property keeps of the state and all outputs so far. -/
theorem run_history_of_always {I : List ο → σ → Prop}
    (h : ∀ history state input, I history state → P state input →
      I (history ++ (M.step state input).2) (M.step state input).1)
    {history : List ο} {state : σ} (hstate : I history state) {inputs : List ι}
    (hall : M.Always P state inputs) :
    I (history ++ (M.run state inputs).2) (M.run state inputs).1 := by
  induction inputs generalizing history state with
  | nil =>
      rw [run_nil, List.append_nil]
      exact hstate
  | cons input inputs ih =>
      rw [run_cons, ← List.append_assoc]
      exact ih (h history state input hstate hall.1) hall.2

/-- What every step with the property emits, from the states that such steps keep. -/
theorem run_outputs_of_invariant {I : σ → Prop} {R : ο → Prop}
    (hI : ∀ state input, I state → P state input → I (M.step state input).1)
    (hR : ∀ state input, I state → P state input → ∀ output ∈ (M.step state input).2, R output)
    {state : σ} (hstate : I state) {inputs : List ι} (hall : M.Always P state inputs) :
    ∀ output ∈ (M.run state inputs).2, R output := by
  induction inputs generalizing state with
  | nil => simp
  | cons input inputs ih =>
      intro output houtput
      obtain hstep | hrest := List.mem_append.1 houtput
      · exact hR state input hstate hall.1 output hstep
      · exact ih (hI state input hstate hall.1) hall.2 output hrest

/-- What every step with the property emits. -/
theorem run_outputs_of_always {R : ο → Prop}
    (h : ∀ state input, P state input → ∀ output ∈ (M.step state input).2, R output) {state : σ}
    {inputs : List ι} (hall : M.Always P state inputs) :
    ∀ output ∈ (M.run state inputs).2, R output :=
  run_outputs_of_invariant (I := fun _ => True) (fun _ _ _ _ => trivial)
    (fun state input _ => h state input) trivial hall

/-- Two runs with the same inputs: what every step with the property keeps of a relation
between the states, and equal outputs. -/
theorem run_related {M' : Machine τ ι ο} {R : σ → τ → Prop}
    (h : ∀ state other input, R state other → P state input →
      R (M.step state input).1 (M'.step other input).1 ∧
        (M.step state input).2 = (M'.step other input).2)
    {state : σ} {other : τ} (hstate : R state other) {inputs : List ι}
    (hall : M.Always P state inputs) :
    R (M.run state inputs).1 (M'.run other inputs).1 ∧
      (M.run state inputs).2 = (M'.run other inputs).2 := by
  induction inputs generalizing state other with
  | nil => exact ⟨hstate, rfl⟩
  | cons input inputs ih =>
      obtain ⟨hnext, hout⟩ := h state other input hstate hall.1
      obtain ⟨hrun, houts⟩ := ih hnext hall.2
      refine ⟨hrun, ?_⟩
      rw [run_cons, run_cons, hout, houts]

end Always

/-- The inputs since the state last was idle. -/
def Since (M : Machine σ ι ο) (Idle : σ → Prop) (state : σ) (inputs recent : List ι) : Prop :=
  ∃ before, inputs = before ++ recent ∧ Idle (M.run state before).1 ∧
    ∀ part rest, recent = part ++ rest → part ≠ [] → ¬Idle (M.run state (before ++ part)).1

section Since

variable {M : Machine σ ι ο} {Idle : σ → Prop} {state : σ} {inputs recent recent' : List ι}

theorem Since.length_le (h : M.Since Idle state inputs recent)
    (h' : M.Since Idle state inputs recent') : recent.length ≤ recent'.length := by
  obtain ⟨before, rfl, hidle, hbusy⟩ := h
  obtain ⟨before', heq, hidle', hbusy'⟩ := h'
  by_contra hlt
  obtain ⟨part, rfl, hrecent⟩ | ⟨part, -, hrecent⟩ := List.append_eq_append_iff.1 heq
  · refine hbusy part recent' hrecent ?_ hidle'
    rintro rfl
    exact hlt (by simp [hrecent])
  · exact hlt (by simp [hrecent])

/-- There is one such list. -/
theorem Since.unique (h : M.Since Idle state inputs recent)
    (h' : M.Since Idle state inputs recent') : recent = recent' := by
  have hlength := Nat.le_antisymm (h.length_le h') (h'.length_le h)
  obtain ⟨before, rfl, -, -⟩ := h
  obtain ⟨before', heq, -, -⟩ := h'
  exact (List.append_inj' heq hlength).2

theorem Since.nil (hidle : Idle (M.run state inputs).1) : M.Since Idle state inputs [] :=
  ⟨inputs, by simp, hidle, by simp +contextual⟩

theorem Since.snoc {input : ι} (h : M.Since Idle state inputs recent)
    (hbusy : ¬Idle (M.run state (inputs ++ [input])).1) :
    M.Since Idle state (inputs ++ [input]) (recent ++ [input]) := by
  obtain ⟨before, rfl, hidle, hall⟩ := h
  refine ⟨before, by simp, hidle, ?_⟩
  intro part rest heq hne
  obtain ⟨rest', rfl, hrest⟩ | ⟨part', rfl, hpart⟩ := List.append_eq_append_iff.1 heq
  · obtain rfl | hnil : rest' = [] ∨ rest' = [input] := by
      cases rest' with
      | nil => exact .inl rfl
      | cons x xs => simp_all
    · rw [List.append_nil] at hne ⊢
      exact hall recent [] (by simp) hne
    · rw [hnil, ← List.append_assoc]
      exact hbusy
  · exact hall part part' rfl hne

/-- What a busy state says about the inputs since it last was idle. -/
theorem exists_since {C : σ → List ι → Prop} (hnil : ∀ state, Idle state → C state [])
    (hsnoc : ∀ state recent input, C state recent → ¬Idle (M.step state input).1 →
      C (M.step state input).1 (recent ++ [input]))
    (hidle : Idle state) (inputs : List ι) :
    ∃ recent, M.Since Idle state inputs recent ∧ C (M.run state inputs).1 recent := by
  induction inputs using List.reverseRecOn with
  | nil => exact ⟨[], .nil hidle, hnil state hidle⟩
  | append_singleton inputs input ih =>
      obtain ⟨recent, hsince, hC⟩ := ih
      have hrun : (M.run state (inputs ++ [input])).1 =
          (M.step (M.run state inputs).1 input).1 := by simp [run_append]
      by_cases hnext : Idle (M.run state (inputs ++ [input])).1
      · exact ⟨[], .nil hnext, hnil _ hnext⟩
      · refine ⟨recent ++ [input], hsince.snoc hnext, ?_⟩
        rw [hrun] at hnext ⊢
        exact hsnoc _ _ _ hC hnext

end Since

/-- The number of steps of the run that have the property. -/
def count (M : Machine σ ι ο) (P : σ → ι → Prop) [∀ state input, Decidable (P state input)]
    (state : σ) : List ι → Nat
  | [] => 0
  | input :: rest => (if P state input then 1 else 0) + M.count P (M.step state input).1 rest

section Count

variable {M : Machine σ ι ο} {P G : σ → ι → Prop} [∀ state input, Decidable (P state input)]
  [∀ state input, Decidable (G state input)]

/-- Steps are paid for by others: if no step spends more than it is granted and the
potential it gives up, no run does. -/
theorem count_add_potential_le {I : σ → Prop} {Q : σ → ι → Prop} (potential : σ → Nat)
    (hI : ∀ state input, I state → Q state input → I (M.step state input).1)
    (h : ∀ state input, I state → Q state input →
      (if P state input then 1 else 0) + potential (M.step state input).1 ≤
        potential state + (if G state input then 1 else 0))
    {state : σ} (hstate : I state) {inputs : List ι} (hall : M.Always Q state inputs) :
    M.count P state inputs + potential (M.run state inputs).1 ≤
      potential state + M.count G state inputs := by
  induction inputs generalizing state with
  | nil => simp [count]
  | cons input inputs ih =>
      have hstep := h state input hstate hall.1
      have hrest := ih (hI state input hstate hall.1) hall.2
      simp only [run_cons, count]
      omega

/-- What some steps count down is counted down by a run, as far as it goes. -/
theorem run_countdown {I : σ → Prop} {Q : σ → ι → Prop} (potential : σ → Nat)
    (hI : ∀ state input, I state → Q state input → I (M.step state input).1)
    (h : ∀ state input, I state → Q state input →
      potential (M.step state input).1 ≤ potential state - if P state input then 1 else 0)
    {state : σ} (hstate : I state) {inputs : List ι} (hall : M.Always Q state inputs) :
    potential (M.run state inputs).1 ≤ potential state - M.count P state inputs := by
  induction inputs generalizing state with
  | nil => exact Nat.le_refl _
  | cons input inputs ih =>
      have hstep := h state input hstate hall.1
      have hrest := ih (hI state input hstate hall.1) hall.2
      simp only [run_cons, count]
      omega

end Count

/-- Outputs are paid for by the inputs: if no step emits more than its input and
the potential it gives up allow, no run emits more than its inputs allow. -/
theorem run_potential {M : Machine σ ι ο} {I : σ → Prop} {potential : σ → Nat}
    {charge : ι → Nat} {cost : ο → Nat}
    (hI : ∀ state input, I state → I (M.step state input).1)
    (h : ∀ state input, I state →
      ((M.step state input).2.map cost).sum + potential (M.step state input).1 ≤
        potential state + charge input)
    {state : σ} (hstate : I state) (inputs : List ι) :
    ((M.run state inputs).2.map cost).sum + potential (M.run state inputs).1 ≤
      potential state + (inputs.map charge).sum := by
  induction inputs generalizing state with
  | nil => simp
  | cons input inputs ih =>
      have hstep := h state input hstate
      have hrest := ih (hI state input hstate)
      simp only [run_cons, List.map_append, List.sum_append, List.map_cons, List.sum_cons]
      omega

end Machine

end Bldc.Foundation
