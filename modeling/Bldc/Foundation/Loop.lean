import Mathlib.Logic.Function.Iterate
import Mathlib.Order.Basic
import Mathlib.Tactic.Common

/-!
# Loops that need not end

A `while` loop is run with an amount of fuel and has no result when it runs out of it. A
computation returns a value if it has that value with all fuel from some amount on.
-/

namespace Bldc.Foundation

variable {σ τ : Type}

/-- `while (cond) body`, with so many tests of the condition. The body may get stuck. -/
def whileLoop (cond : σ → Prop) [DecidablePred cond] (body : σ → Option σ) :
    Nat → σ → Option σ
  | 0, _ => none
  | fuel + 1, s => if cond s then (body s).bind (whileLoop cond body fuel) else some s

/-- With enough fuel the computation has the value. -/
def Returns (run : Nat → Option τ) (value : τ) : Prop :=
  ∃ least, ∀ fuel, least ≤ fuel → run fuel = some value

/-- A computation that needs no fuel. -/
theorem returns_of_eq {result : Option τ} {value : τ} (h : result = some value) :
    Returns (fun _ => result) value := ⟨0, fun _ _ => h⟩

theorem Returns.unique {run : Nat → Option τ} {value value' : τ} (h : Returns run value)
    (h' : Returns run value') : value = value' := by
  obtain ⟨least, hrun⟩ := h
  obtain ⟨least', hrun'⟩ := h'
  have hboth := (hrun (max least least') (Nat.le_max_left _ _)).symm.trans
    (hrun' (max least least') (Nat.le_max_right _ _))
  exact Option.some.inj hboth

/-- One computation after another. -/
theorem Returns.bind {run : Nat → Option σ} {next : Nat → σ → Option τ} {s : σ} {value : τ}
    (h : Returns run s) (hnext : Returns (fun fuel => next fuel s) value) :
    Returns (fun fuel => (run fuel).bind (next fuel)) value := by
  obtain ⟨least, hrun⟩ := h
  obtain ⟨least', hrun'⟩ := hnext
  refine ⟨max least least', fun fuel hfuel => ?_⟩
  dsimp only
  rw [hrun fuel (Nat.le_trans (Nat.le_max_left _ _) hfuel), Option.bind_some]
  exact hrun' fuel (Nat.le_trans (Nat.le_max_right _ _) hfuel)

/-- A loop over the first numbers, whose rounds return. -/
theorem returns_foldlM {step : Nat → σ → Nat → Option σ} {state : Nat → σ} {rounds : Nat}
    (h : ∀ i < rounds, Returns (fun fuel => step fuel (state i) i) (state (i + 1))) :
    Returns (fun fuel => (List.range rounds).foldlM (step fuel) (state 0)) (state rounds) := by
  induction rounds with
  | zero => exact ⟨0, fun _ _ => rfl⟩
  | succ rounds ih =>
      simp only [List.range_succ, List.foldlM_append, List.foldlM_cons, List.foldlM_nil, bind_pure]
      have hround := h rounds (Nat.lt_succ_self _)
      exact (ih fun i hi => h i (Nat.lt_succ_of_lt hi)).bind hround

section While

variable {cond : σ → Prop} [DecidablePred cond] {body : Nat → σ → Option σ} {s t : σ}

theorem whileLoop_of_not (h : ¬cond s) (step : σ → Option σ) (fuel : Nat) :
    whileLoop cond step (fuel + 1) s = some s := if_neg h

theorem whileLoop_of_cond (h : cond s) {step : σ → Option σ} (hstep : step s = some t)
    (fuel : Nat) : whileLoop cond step (fuel + 1) s = whileLoop cond step fuel t := by
  rw [whileLoop, if_pos h, hstep, Option.bind_some]

/-- A loop that is at its end. -/
theorem returns_whileLoop_of_not (h : ¬cond s) {step : σ → Option σ} :
    Returns (fun fuel => whileLoop cond step fuel s) s := by
  refine ⟨1, fun fuel hfuel => ?_⟩
  obtain ⟨fuel, rfl⟩ := Nat.exists_eq_add_of_le' hfuel
  exact whileLoop_of_not h step fuel

/-- A loop that has a round to go. -/
theorem returns_whileLoop_of_cond (h : cond s) {step : σ → Option σ} {u : σ}
    (hstep : step s = some t) (hrest : Returns (fun fuel => whileLoop cond step fuel t) u) :
    Returns (fun fuel => whileLoop cond step fuel s) u := by
  obtain ⟨least, hrun⟩ := hrest
  refine ⟨least + 1, fun fuel hfuel => ?_⟩
  obtain ⟨fuel, rfl⟩ := Nat.exists_eq_add_of_le' (Nat.one_le_of_lt hfuel)
  dsimp only
  rw [whileLoop_of_cond h hstep]
  exact hrun fuel (Nat.le_of_succ_le_succ hfuel)

/-- The rule for total correctness: each round keeps the invariant and makes the variant
smaller. The body may need fuel of its own. -/
theorem returns_whileLoop {I : σ → Prop} (variant : σ → Nat)
    (hround : ∀ s, I s → cond s →
      ∃ t, Returns (fun fuel => body fuel s) t ∧ I t ∧ variant t < variant s)
    (hs : I s) :
    ∃ t, Returns (fun fuel => whileLoop cond (body fuel) fuel s) t ∧ I t ∧ ¬cond t := by
  -- the loop counts its own fuel down, while the body keeps all of it
  suffices h : ∃ t, (∃ least, ∀ fuel, least ≤ fuel → ∀ inner, least ≤ inner →
      whileLoop cond (body inner) fuel s = some t) ∧ I t ∧ ¬cond t by
    obtain ⟨t, ⟨least, hrun⟩, hkept⟩ := h
    exact ⟨t, ⟨least, fun fuel hfuel => hrun fuel hfuel fuel hfuel⟩, hkept⟩
  induction hvariant : variant s using Nat.strongRecOn generalizing s with
  | _ n ih =>
      by_cases hcond : cond s
      · obtain ⟨t, ⟨least, hbody⟩, hkept, hless⟩ := hround s hs hcond
        obtain ⟨u, ⟨least', hrest⟩, hend⟩ := ih (variant t) (hvariant ▸ hless) hkept rfl
        refine ⟨u, ⟨max least least' + 1, fun fuel hfuel inner hinner => ?_⟩, hend⟩
        obtain ⟨fuel, rfl⟩ := Nat.exists_eq_add_of_le' (Nat.one_le_of_lt hfuel)
        have hmore := Nat.le_of_succ_le_succ hfuel
        have henough := Nat.le_trans (Nat.le_succ _) hinner
        rw [whileLoop_of_cond hcond (hbody inner (Nat.le_trans (Nat.le_max_left _ _) henough))]
        exact hrest fuel (Nat.le_trans (Nat.le_max_right _ _) hmore) inner
          (Nat.le_trans (Nat.le_max_right _ _) henough)
      · refine ⟨s, ⟨1, fun fuel hfuel inner _ => ?_⟩, hs, hcond⟩
        obtain ⟨fuel, rfl⟩ := Nat.exists_eq_add_of_le' hfuel
        exact whileLoop_of_not hcond _ fuel

end While

/-- A loop that takes so many rounds. -/
theorem returns_iterate {cond : σ → Prop} [DecidablePred cond] {step : σ → σ} {s : σ}
    {rounds : Nat} (hround : ∀ i < rounds, cond (step^[i] s))
    (hend : ¬cond (step^[rounds] s)) :
    Returns (fun fuel => whileLoop cond (fun s => some (step s)) fuel s) (step^[rounds] s) := by
  refine ⟨rounds + 1, fun fuel hfuel => ?_⟩
  induction rounds generalizing fuel s with
  | zero =>
      obtain ⟨fuel, rfl⟩ := Nat.exists_eq_add_of_le' hfuel
      exact whileLoop_of_not hend _ fuel
  | succ rounds ih =>
      obtain ⟨fuel, rfl⟩ := Nat.exists_eq_add_of_le' (Nat.one_le_of_lt hfuel)
      have hcond : cond s := hround 0 (Nat.succ_pos _)
      dsimp only
      rw [whileLoop, if_pos hcond, Option.bind_some]
      exact ih (fun i hi => hround (i + 1) (Nat.succ_lt_succ hi)) hend fuel
        (Nat.le_of_succ_le_succ hfuel)

end Bldc.Foundation
