import Bldc.App.Limit
import Bldc.Foundation.Row

/-!
# Safe start

With a safe start an app drives the motor only after its input has been without power for
a while. Both threads count this while, remember the count of the iteration before, and
take a count that has not changed for an iteration with power.
-/

namespace Bldc.App

open Link Foundation

/-- An iteration of a thread. `weight` is what it counts for if it is idle. -/
structure Iteration where
  fault : Bool
  idle : Bool
  weight : Rat
  safeStart : Bool
  commands : List Command

/-- What happens to an app. -/
inductive Happening where
  | configured
  | iteration (iteration : Iteration)

namespace Happening

/-- A new configuration, or an iteration that sees a timeout or a fault. -/
def IsReset : Happening → Prop
  | configured => True
  | iteration i => i.fault

/-- An iteration that satisfies the idle test of its control type. -/
def IsIdle : Happening → Prop
  | configured => False
  | iteration i => i.idle

instance : DecidablePred IsReset
  | configured => .isTrue trivial
  | iteration i => inferInstanceAs (Decidable (i.fault = true))

instance : DecidablePred IsIdle
  | configured => .isFalse id
  | iteration i => inferInstanceAs (Decidable (i.idle = true))

def weight : Happening → Rat
  | configured => 0
  | iteration i => i.weight

end Happening

/-- A duty cycle, a speed or a drive current, for the own motor or another one. -/
def Command.drives : Command → Bool
  | .setDuty _ | .setPidSpeed _ | .setCurrent _ | .canSetDuty _ _ | .canSetCurrent _ _ => true
  | .setBrakeCurrent _ | .canSetCurrentBrake _ _ => false

/-- A row of idle iterations from the last reset on. -/
abbrev IdleFrom (least : Rat) (history : List Happening) : Prop :=
  RowFrom Happening.IsReset Happening.IsIdle Happening.weight least history

/-- The same behind the last reset. -/
abbrev IdleSince (least : Rat) (history : List Happening) : Prop :=
  RowSince Happening.IsReset Happening.IsIdle Happening.weight least history

abbrev IdleNow (total : Rat) (history : List Happening) : Prop :=
  RowNow Happening.IsReset Happening.IsIdle Happening.weight total history

/-- With a safe start, every iteration that drives comes after a row that is described. -/
def StartsSafely (Row : List Happening → Prop) (history : List Happening) : Prop :=
  ∀ before i after, history = before ++ .iteration i :: after → i.safeStart →
    (∃ command ∈ i.commands, command.drives) → Row (before ++ [.iteration i])

theorem startsSafely_nil (Row : List Happening → Prop) : StartsSafely Row [] := by
  intro before i after heq
  simp at heq

/-- One more thing that happens. -/
theorem StartsSafely.snoc {Row : List Happening → Prop} {history : List Happening}
    (h : StartsSafely Row history) {e : Happening}
    (he : ∀ i, e = .iteration i → i.safeStart → (∃ command ∈ i.commands, command.drives) →
      Row (history ++ [e])) : StartsSafely Row (history ++ [e]) := by
  intro before i after heq hsafe hdrives
  obtain rfl | ⟨after', last, rfl⟩ := after.eq_nil_or_concat
  · obtain ⟨rfl, hlast⟩ := List.append_inj' heq rfl
    obtain rfl := List.singleton_inj.1 hlast
    exact he i rfl hsafe hdrives
  · rw [List.concat_eq_append, ← List.cons_append, ← List.append_assoc] at heq
    exact h before i after' (List.append_inj' heq rfl).1 hsafe hdrives

/-- The code at the end of an iteration that is held back. -/
def holdBack (counted : Rat) (before : Int) : Rat := if counted = before then 0 else counted

/-- The count is that of the idle row now, or a row has been long enough. -/
def Waiting (least : Rat) (history : List Happening) (counted : Rat) (before : Int) : Prop :=
  IdleFrom least history ∨
    IdleNow counted history ∧ (before = truncate counted ∨ counted = 0)

section Waiting

variable {least counted : Rat} {history : List Happening} {before : Int} {e : Happening}

theorem waiting_zero (least : Rat) (history : List Happening) (before : Int) :
    Waiting least history 0 before :=
  .inr ⟨rowNow_zero history, .inr rfl⟩

/-- The row after an idle iteration. The count begins anew with a reset. -/
theorem Waiting.idleNow (h : Waiting least history counted before) (hidle : e.IsIdle)
    {counted' : Rat} (hreset : e.IsReset → counted' ≤ e.weight)
    (hcount : ¬e.IsReset → counted' ≤ counted + e.weight) :
    IdleFrom least (history ++ [e]) ∨ IdleNow counted' (history ++ [e]) := by
  by_cases he : e.IsReset
  · exact .inr ((rowNow_of_idle history hidle).mono (hreset he))
  · obtain hfrom | ⟨hnow, -⟩ := h
    · exact .inl (hfrom.snoc he)
    · exact .inr ((hnow.snoc hidle he).mono (hcount he))

/-- Once the count is high enough, a row was long enough. -/
theorem idleFrom_of_le (h : IdleFrom least history ∨ IdleNow counted history)
    (hleast : least ≤ counted) : IdleFrom least history := by
  obtain hfrom | hnow := h
  · exact hfrom
  · exact (hnow.mono hleast).rowFrom

/-- Held back, a count is remembered or begins anew. -/
theorem waiting_holdBack (h : IdleFrom least history ∨ IdleNow counted history) :
    Waiting least history (holdBack counted before) (truncate (holdBack counted before)) := by
  refine h.imp_right fun hnow => ⟨?_, .inl rfl⟩
  unfold holdBack
  split
  · exact rowNow_zero history
  · exact hnow

/-- An iteration with power begins the count anew, unless the count is not the number that
was remembered for it. -/
theorem Waiting.holdBack_powered (h : Waiting least history counted before) (he : ¬e.IsReset)
    (hwhole : (truncate counted : Rat) = counted) :
    Waiting least (history ++ [e]) (holdBack counted before)
      (truncate (holdBack counted before)) := by
  obtain hfrom | ⟨-, hbefore⟩ := h
  · exact .inl (hfrom.snoc he)
  · have hzero : holdBack counted before = 0 := by
      unfold holdBack
      obtain rfl | rfl := hbefore
      · rw [hwhole, if_pos rfl]
      · exact ite_self 0
    rw [hzero]
    exact waiting_zero _ _ _

end Waiting

end Bldc.App
