import Bldc.Foundation.Machine

/-!
# Outputs that show a switch

Some outputs of a machine show the position of a switch in its state, and the switch moves
only with outputs that allow it. Between two outputs that show different positions there is
then one that allowed the move.
-/

namespace Bldc.Foundation

variable {σ ι ο β : Type} {shows : ο → β → Prop} {turns : ο → Prop}

/-- Different positions are shown only with a turn in between. The turn may be the output that
shows the second one. -/
def Separated (shows : ο → β → Prop) (turns : ο → Prop) (log : List ο) : Prop :=
  ∀ before first between last after, log = before ++ first :: between ++ last :: after →
    ∀ position position', shows first position → shows last position' → position ≠ position' →
      ∃ output ∈ between ++ [last], turns output

/-- A turn has come since another position was shown. -/
def TurnedSince (shows : ο → β → Prop) (turns : ο → Prop) (log : List ο) (position : β) : Prop :=
  ∀ before first after, log = before ++ first :: after →
    ∀ shown, shows first shown → shown ≠ position → ∃ output ∈ after, turns output

/-- One more output. -/
theorem TurnedSince.snoc {log : List ο} {output : ο} {position position' : β}
    (h : TurnedSince shows turns log position)
    (hmove : position' = position ∨ turns output)
    (hshown : ∀ shown, shows output shown → shown = position') :
    TurnedSince shows turns (log ++ [output]) position' := by
  intro before first after hlog shown hshows hne
  obtain rfl | ⟨after, last, rfl⟩ := List.eq_nil_or_concat after
  · -- the new output is the one that shows something else
    obtain ⟨-, hends⟩ := List.append_inj' hlog rfl
    obtain rfl : output = first := List.head_eq_of_cons_eq hends
    exact absurd (hshown shown hshows) hne
  · have hsplit : log ++ [output] = (before ++ first :: after) ++ [last] := by simpa using hlog
    obtain ⟨hfront, hends⟩ := List.append_inj' hsplit rfl
    obtain rfl : output = last := List.head_eq_of_cons_eq hends
    obtain rfl | hturns := hmove
    · obtain ⟨turn, hmem, hturns⟩ := h before first after hfront shown hshows hne
      exact ⟨turn, by simp [hmem], hturns⟩
    · exact ⟨output, by simp, hturns⟩

theorem Separated.snoc {log : List ο} {output : ο} {position : β}
    (h : Separated shows turns log)
    (hsince : TurnedSince shows turns (log ++ [output]) position)
    (hshown : ∀ shown, shows output shown → shown = position) :
    Separated shows turns (log ++ [output]) := by
  intro before first between last after hlog shown shown' hfirst hlast hne
  obtain rfl | ⟨after, final, rfl⟩ := List.eq_nil_or_concat after
  · have hsplit : log ++ [output] = (before ++ first :: between) ++ [last] := by simpa using hlog
    obtain ⟨-, hends⟩ := List.append_inj' hsplit rfl
    obtain rfl : output = last := List.head_eq_of_cons_eq hends
    obtain rfl := hshown shown' hlast
    refine hsince before first (between ++ [output]) ?_ shown hfirst hne
    rw [hlog, List.append_assoc, List.cons_append]
  · have hsplit : log ++ [output] =
        (before ++ first :: between ++ last :: after) ++ [final] := by simpa using hlog
    obtain ⟨hfront, -⟩ := List.append_inj' hsplit rfl
    exact h before first between last after hfront shown shown' hfirst hlast hne

end Bldc.Foundation
