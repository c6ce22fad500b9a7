import Mathlib.Data.Finset.Card
import Mathlib.Data.List.Induction
import Mathlib.Order.Basic
import Mathlib.Tactic.Common

/-!
# Scans of a list

A scan for a maximum keeps the greatest value so far, and marks a place whose value is
greater than all before it and than a threshold. A tally counts the different members of
a list with a flag for each.
-/

namespace Bldc.Foundation

section Maximum

variable {ι α ρ : Type} [LinearOrder ι] [LinearOrder α]

/-- The first place in the list where the value is greatest. -/
structure IsFirstMax (value : ι → α) (places : List ι) (place : ι) : Prop where
  mem : place ∈ places
  le : ∀ other ∈ places, value other ≤ value place
  lt : ∀ other ∈ places, other < place → value other < value place

theorem IsFirstMax.unique {value : ι → α} {places : List ι} {place place' : ι}
    (h : IsFirstMax value places place) (h' : IsFirstMax value places place') :
    place = place' := by
  rcases lt_trichotomy place place' with hlt | heq | hgt
  · exact absurd (h'.lt place h.mem hlt) (not_lt.2 (h.le place' h'.mem))
  · exact heq
  · exact absurd (h.lt place' h'.mem hgt) (not_lt.2 (h'.le place h.mem))

/-- A place behind the others, with a greater value. -/
theorem isFirstMax_snoc {value : ι → α} {places : List ι} {place : ι}
    (hgreater : ∀ other ∈ places, value other < value place) :
    IsFirstMax value (places ++ [place]) place := by
  refine ⟨by simp, ?_, ?_⟩
  · rw [List.forall_mem_append, List.forall_mem_singleton]
    exact ⟨fun other hmem => (hgreater other hmem).le, le_rfl⟩
  · rw [List.forall_mem_append, List.forall_mem_singleton]
    exact ⟨fun other hmem _ => hgreater other hmem, fun hlt => absurd hlt (lt_irrefl place)⟩

/-- A place behind the others, with no greater value. -/
theorem IsFirstMax.snoc {value : ι → α} {places : List ι} {first place : ι}
    (h : IsFirstMax value places first) (hlast : first < place)
    (hle : value place ≤ value first) : IsFirstMax value (places ++ [place]) first := by
  refine ⟨List.mem_append_left _ h.mem, ?_, ?_⟩
  · rw [List.forall_mem_append, List.forall_mem_singleton]
    exact ⟨h.le, hle⟩
  · rw [List.forall_mem_append, List.forall_mem_singleton]
    exact ⟨h.lt, fun hlt => absurd hlt hlast.asymm⟩

variable (value : ι → α) (threshold : α) (mark : ι → ρ)

/-- The greatest value so far, and the mark. -/
def scanStep (best : α × ρ) (place : ι) : α × ρ :=
  if value place > best.1 then
    (value place, if value place > threshold then mark place else best.2)
  else best

/-- What is known after the places. -/
structure Scanned (unmarked : ρ) (places : List ι) (best : α × ρ) : Prop where
  le : ∀ place ∈ places, value place ≤ best.1
  low : best.1 ≤ threshold → best.2 = unmarked
  high : threshold < best.1 → ∃ place, IsFirstMax value places place ∧
    value place = best.1 ∧ best.2 = mark place

variable {value threshold mark}

theorem Scanned.step {unmarked : ρ} {places : List ι} {best : α × ρ} {place : ι}
    (h : Scanned value threshold mark unmarked places best)
    (hlast : ∀ other ∈ places, other < place) :
    Scanned value threshold mark unmarked (places ++ [place])
      (scanStep value threshold mark best place) := by
  unfold scanStep
  split
  next hgreater =>
    have hall (other : ι) (hmem : other ∈ places) : value other < value place :=
      (h.le other hmem).trans_lt hgreater
    refine ⟨(isFirstMax_snoc hall).le, fun hlow => ?_, fun hhigh => ?_⟩
    · dsimp only at hlow ⊢
      rw [if_neg (not_lt.2 hlow)]
      exact h.low (hgreater.le.trans hlow)
    · exact ⟨place, isFirstMax_snoc hall, rfl, if_pos hhigh⟩
  next hle =>
    rw [gt_iff_lt, not_lt] at hle
    refine ⟨?_, h.low, fun hhigh => ?_⟩
    · rw [List.forall_mem_append, List.forall_mem_singleton]
      exact ⟨h.le, hle⟩
    · obtain ⟨first, hfirst, hvalue, hmark⟩ := h.high hhigh
      exact ⟨first, hfirst.snoc (hlast first hfirst.mem) (hvalue ▸ hle), hvalue, hmark⟩

/-- Over places in their order the scan finds the first maximum above the threshold. -/
theorem scanned_foldl {start : α} (hstart : start ≤ threshold) (unmarked : ρ) {places : List ι}
    (hsorted : places.Pairwise (· < ·)) :
    Scanned value threshold mark unmarked places
      (places.foldl (scanStep value threshold mark) (start, unmarked)) := by
  induction places using List.reverseRecOn with
  | nil => exact ⟨nofun, fun _ => rfl, fun hhigh => absurd hhigh (not_lt.2 hstart)⟩
  | append_singleton places place ih =>
      rw [List.pairwise_append] at hsorted
      rw [List.foldl_append]
      exact (ih hsorted.1).step fun other hmem => hsorted.2.2 other hmem place (by simp)

end Maximum

section Tally

variable {α : Type} [DecidableEq α]

/-- The members that have been flagged, and their number. -/
structure Tally (α : Type) where
  flags : α → Bool
  total : Nat

namespace Tally

def empty : Tally α := ⟨fun _ => false, 0⟩

/-- Only a member that is not flagged yet counts. -/
def add (t : Tally α) (a : α) : Tally α :=
  if t.flags a then t else ⟨fun b => if b = a then true else t.flags b, t.total + 1⟩

/-- What is known after the members of a list. -/
structure Counts (t : Tally α) (members : List α) : Prop where
  flags : ∀ a, t.flags a = true ↔ a ∈ members
  total : t.total = members.toFinset.card

theorem counts_empty : (empty : Tally α).Counts [] := ⟨by simp [empty], rfl⟩

theorem Counts.add {t : Tally α} {members : List α} (h : t.Counts members) (a : α) :
    (t.add a).Counts (members ++ [a]) := by
  have hunion : (members ++ [a]).toFinset = insert a members.toFinset := by
    ext b
    simp
  unfold Tally.add
  split
  next hflag =>
    have hmem : a ∈ members := (h.flags a).1 hflag
    refine ⟨fun b => ?_, ?_⟩
    · rw [h.flags, List.mem_append, List.mem_singleton, or_iff_left_of_imp]
      rintro rfl
      exact hmem
    · rw [hunion, Finset.insert_eq_of_mem (List.mem_toFinset.2 hmem), h.total]
  next hflag =>
    have hnew : a ∉ members.toFinset := by
      rw [List.mem_toFinset, ← h.flags]
      exact hflag
    refine ⟨fun b => ?_, ?_⟩
    · by_cases heq : b = a
      · simp [heq]
      · simp [heq, h.flags]
    · rw [hunion, Finset.card_insert_of_notMem hnew, h.total]

end Tally

end Tally

end Bldc.Foundation
