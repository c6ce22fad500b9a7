import Mathlib.Algebra.BigOperators.Group.List.Basic
import Mathlib.Algebra.Order.Monoid.Defs
import Mathlib.Tactic.Common

/-!
# Unbroken rows of events

Events come one after the other. Some of them are idle and have a weight, some are
resets, and an event may be both. The rules say how the weight of a row of idle events
grows with the events.
-/

namespace Bldc.Foundation

variable {α M : Type}

section Defs

variable [AddMonoid M] [LE M] (reset idle : α → Prop) (weight : α → M)

/-- The last events are idle and weigh that much, with no reset behind the first of them. -/
def RowNow (total : M) (events : List α) : Prop :=
  ∃ before row, events = before ++ row ∧ (∀ e ∈ row, idle e) ∧ (∀ e ∈ row.tail, ¬reset e) ∧
    total ≤ (row.map weight).sum

/-- A row of idle events weighed that much, and no reset has come behind its first event. -/
def RowFrom (total : M) (events : List α) : Prop :=
  ∃ before row after, events = before ++ row ++ after ∧ (∀ e ∈ row, idle e) ∧
    (∀ e ∈ (row ++ after).tail, ¬reset e) ∧ total ≤ (row.map weight).sum

/-- The same for a row that is entirely behind the last reset. -/
def RowSince (total : M) (events : List α) : Prop :=
  ∃ before row after, events = before ++ row ++ after ∧ (∀ e ∈ row, idle e) ∧
    (∀ e ∈ row ++ after, ¬reset e) ∧ total ≤ (row.map weight).sum

end Defs

section Rules

variable [AddCommMonoid M] [PartialOrder M] {reset idle : α → Prop}
  {weight : α → M} {total : M} {events : List α} {e : α}

theorem rowNow_zero (events : List α) : RowNow reset idle weight 0 events :=
  ⟨events, [], by simp, by simp, by simp, by simp⟩

theorem RowNow.mono {total' : M} (h : RowNow reset idle weight total events)
    (hle : total' ≤ total) : RowNow reset idle weight total' events := by
  obtain ⟨before, row, heq, hidle, hreset, hsum⟩ := h
  exact ⟨before, row, heq, hidle, hreset, hle.trans hsum⟩

/-- An idle event may begin a row, also one that is a reset. -/
theorem rowNow_of_idle (events : List α) (hidle : idle e) :
    RowNow reset idle weight (weight e) (events ++ [e]) :=
  ⟨events, [e], rfl, by simpa using hidle, by simp, by simp⟩

theorem RowNow.snoc [IsOrderedAddMonoid M] (h : RowNow reset idle weight total events)
    (hidle : idle e) (hreset : ¬reset e) :
    RowNow reset idle weight (total + weight e) (events ++ [e]) := by
  obtain ⟨before, row, rfl, hrow, htail, hsum⟩ := h
  refine ⟨before, row ++ [e], List.append_assoc .., ?_, ?_, ?_⟩
  · rw [List.forall_mem_append, List.forall_mem_singleton]
    exact ⟨hrow, hidle⟩
  · cases row with
    | nil => simp
    | cons first row =>
        rw [List.cons_append, List.tail_cons, List.forall_mem_append, List.forall_mem_singleton]
        exact ⟨htail, hreset⟩
  · rw [List.map_append, List.sum_append, List.map_singleton, List.sum_singleton]
    exact add_le_add_left hsum _

theorem RowNow.rowFrom (h : RowNow reset idle weight total events) :
    RowFrom reset idle weight total events := by
  obtain ⟨before, row, rfl, hrow, htail, hsum⟩ := h
  refine ⟨before, row, [], by simp, hrow, ?_, hsum⟩
  rw [List.append_nil]
  exact htail

theorem RowFrom.snoc (h : RowFrom reset idle weight total events) (hreset : ¬reset e) :
    RowFrom reset idle weight total (events ++ [e]) := by
  obtain ⟨before, row, after, rfl, hrow, htail, hsum⟩ := h
  refine ⟨before, row, after ++ [e], by simp, hrow, ?_, hsum⟩
  rw [← List.append_assoc]
  cases hlist : row ++ after with
  | nil => simp
  | cons first rest =>
      rw [hlist] at htail
      rw [List.cons_append, List.tail_cons, List.forall_mem_append, List.forall_mem_singleton]
      exact ⟨htail, hreset⟩

/-- If no reset is idle, a row with a weight lies behind the last reset. -/
theorem RowFrom.rowSince (h : RowFrom reset idle weight total events) (htotal : 0 < total)
    (hdisjoint : ∀ e ∈ events, idle e → ¬reset e) : RowSince reset idle weight total events := by
  obtain ⟨before, row, after, rfl, hrow, htail, hsum⟩ := h
  refine ⟨before, row, after, rfl, hrow, ?_, hsum⟩
  cases row with
  | nil => exact absurd (htotal.trans_le hsum) (lt_irrefl _)
  | cons first row =>
      rw [List.cons_append, List.forall_mem_cons]
      exact ⟨hdisjoint first (by simp) (hrow first List.mem_cons_self), htail⟩

/-- A row given by its place. -/
theorem rowFrom_iff_slice : RowFrom reset idle weight total events ↔
    ∃ i < events.length + 1, ∃ j < events.length + 1,
      (∀ e ∈ (events.drop i).take j, idle e) ∧ (∀ e ∈ (events.drop i).tail, ¬reset e) ∧
        total ≤ (((events.drop i).take j).map weight).sum := by
  constructor
  · rintro ⟨before, row, after, rfl, hrow, htail, hsum⟩
    refine ⟨before.length, ?_, row.length, ?_, ?_⟩
    · simp only [List.length_append]
      omega
    · simp only [List.length_append]
      omega
    · rw [List.append_assoc, List.drop_left, List.take_left]
      exact ⟨hrow, htail, hsum⟩
  · rintro ⟨i, -, j, -, hrow, htail, hsum⟩
    refine ⟨events.take i, (events.drop i).take j, (events.drop i).drop j, ?_, hrow, ?_, hsum⟩
    · rw [List.append_assoc, List.take_append_drop, List.take_append_drop]
    · rw [List.take_append_drop]
      exact htail

instance [DecidablePred reset] [DecidablePred idle] [DecidableLE M] :
    Decidable (RowFrom reset idle weight total events) :=
  decidable_of_iff' _ rowFrom_iff_slice

end Rules

end Bldc.Foundation
