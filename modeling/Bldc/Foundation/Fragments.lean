import Bldc.Foundation.Machine

/-!
# Reassembly from pieces

A range of positions is cut into pieces, and each piece puts the positions it
fills right. Pieces that cover the range do so in any order and however often
they are repeated, as long as none spoils what is right already.
-/

namespace Bldc.Foundation

variable {σ ι ο δ π : Type}

/-- The pieces fill positions, and among them all from `first` to `last`. -/
structure Covers (Fills : π → Nat → Nat → Prop) (pieces : List π) (first last : Nat) : Prop where
  fills : ∀ piece ∈ pieces, ∃ start stop, Fills piece start stop
  covers : ∀ x, first ≤ x → x < last → ∃ piece ∈ pieces, ∃ start stop,
    Fills piece start stop ∧ start ≤ x ∧ x < stop

namespace Covers

variable {Fills : π → Nat → Nat → Prop}

theorem nil {first last : Nat} (h : last ≤ first) : Covers Fills [] first last where
  fills := by simp
  covers x hx hx' := by omega

theorem cons {piece : π} {pieces : List π} {first stop next last : Nat}
    (hpiece : Fills piece first stop) (hstop : ∀ x < last, x < next → x < stop)
    (h : Covers Fills pieces next last) : Covers Fills (piece :: pieces) first last where
  fills := by
    intro piece' hpiece'
    rcases List.mem_cons.1 hpiece' with rfl | hpiece'
    · exact ⟨first, stop, hpiece⟩
    · exact h.fills piece' hpiece'
  covers := by
    intro x hx hx'
    by_cases hnext : x < next
    · exact ⟨piece, List.mem_cons_self, first, stop, hpiece, hx, hstop x hx' hnext⟩
    · obtain ⟨piece', hpiece', hcovers⟩ := h.covers x (by omega) hx'
      exact ⟨piece', List.mem_cons_of_mem piece hpiece', hcovers⟩

theorem append {pieces pieces' : List π} {first middle last : Nat}
    (h : Covers Fills pieces first (min middle last)) (h' : Covers Fills pieces' middle last) :
    Covers Fills (pieces ++ pieces') first last where
  fills := by
    intro piece hpiece
    rcases List.mem_append.1 hpiece with hpiece | hpiece
    · exact h.fills piece hpiece
    · exact h'.fills piece hpiece
  covers := by
    intro x hx hx'
    by_cases hmiddle : x < middle
    · obtain ⟨piece, hpiece, hcovers⟩ := h.covers x hx (by omega)
      exact ⟨piece, List.mem_append_left pieces' hpiece, hcovers⟩
    · obtain ⟨piece, hpiece, hcovers⟩ := h'.covers x (by omega) hx'
      exact ⟨piece, List.mem_append_right pieces hpiece, hcovers⟩

end Covers

end Bldc.Foundation
