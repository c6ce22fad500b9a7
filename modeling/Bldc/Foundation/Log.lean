import Mathlib.Data.List.Basic
import Mathlib.Tactic.Common

/-!
# Append-only logs

A finite map kept as a list of key-value entries in the order they were written.
The value of a key is that of its latest entry.
-/

namespace Bldc.Foundation

variable {κ ν : Type} [DecidableEq κ]

/-- The value of the last entry with the given key. -/
def latest (key : κ) (log : List (κ × ν)) : Option ν := log.reverse.lookup key

@[simp] theorem latest_nil (key : κ) : latest key ([] : List (κ × ν)) = none := rfl

theorem latest_concat (key : κ) (log : List (κ × ν)) (entry : κ × ν) :
    latest key (log ++ [entry]) = if entry.1 = key then some entry.2 else latest key log := by
  unfold latest
  rw [List.reverse_append, List.reverse_singleton, List.singleton_append, List.lookup_cons]
  by_cases h : entry.1 = key
  · simp [h]
  · have hbeq : (key == entry.1) = false := by
      rw [beq_eq_false_iff_ne]
      exact fun heq => h heq.symm
    rw [hbeq, if_neg h]

theorem latest_concat_self (key : κ) (value : ν) (log : List (κ × ν)) :
    latest key (log ++ [(key, value)]) = some value := by
  rw [latest_concat, if_pos rfl]

theorem latest_concat_of_ne {key : κ} {entry : κ × ν} (log : List (κ × ν)) (h : entry.1 ≠ key) :
    latest key (log ++ [entry]) = latest key log := by
  rw [latest_concat, if_neg h]

/-- The later of two logs wins. -/
theorem latest_append (key : κ) (log later : List (κ × ν)) :
    latest key (log ++ later) = (latest key later).or (latest key log) := by
  unfold latest
  rw [List.reverse_append, List.lookup_append]

/-- Entries under other keys do not matter. -/
theorem latest_append_replicate {key : κ} {entry : κ × ν} (log : List (κ × ν)) (n : Nat)
    (h : entry.1 ≠ key) : latest key (log ++ List.replicate n entry) = latest key log := by
  induction n with
  | zero => rw [List.replicate_zero, List.append_nil]
  | succ n ih =>
      rw [List.replicate_succ', ← List.append_assoc, latest_concat_of_ne _ h, ih]

end Bldc.Foundation
