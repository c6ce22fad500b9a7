import Mathlib.Data.List.Basic
import Mathlib.Tactic.Common

/-!
# Programs of fallible atomic operations

A program inspects a state, updates its volatile part, and attempts atomic
operations of a device. The world answers every attempt: the operation is done,
it reports a failure (performed or not), or power is lost before it. One program
text therefore has one meaning for successful runs, for runs with errors and for
runs that are cut between any two operations.
-/

namespace Bldc.Foundation

/-- What the world does at one attempted operation. -/
inductive Answer (ε : Type) where
  | done
  | fail (status : ε) (performed : Bool)
  | cut
  deriving DecidableEq, Repr

/-- The effect of an operation on the state, and the status reported on success. -/
structure Device (σ ω ε : Type) where
  perform : ω → σ → σ
  success : ε

inductive Program (σ ω ε α : Type) where
  | ret (value : α)
  | look (next : σ → Program σ ω ε α)
  | assign (update : σ → σ) (next : Program σ ω ε α)
  | op (operation : ω) (next : ε → Program σ ω ε α)

/-- How a run ended: the returned value unless power was lost, the state it
left, and the answers it did not use. -/
structure Outcome (σ ε α : Type) where
  result : Option α
  state : σ
  rest : List (Answer ε)

variable {σ τ ω ε α β : Type}

namespace Program

def bind : Program σ ω ε α → (α → Program σ ω ε β) → Program σ ω ε β
  | ret value, next => next value
  | look k, next => look fun state => (k state).bind next
  | assign update k, next => assign update (k.bind next)
  | op operation k, next => op operation fun status => (k status).bind next

instance : Monad (Program σ ω ε) where
  pure := ret
  bind := bind

/-- The state a program sees. -/
def read : Program σ ω ε σ := look ret

/-- Update volatile state; power cannot be observed here. -/
def modify (update : σ → σ) : Program σ ω ε Unit := assign update (ret ())

/-- Attempt one operation and return its status. -/
def attempt (operation : ω) : Program σ ω ε ε := op operation ret

/-- Run a program on one component of a larger state. -/
def lift (view : τ → σ) (put : σ → τ → τ) : Program σ ω ε α → Program τ ω ε α
  | ret value => ret value
  | look k => look fun state => (k (view state)).lift view put
  | assign update k => assign (fun state => put (update (view state)) state) (k.lift view put)
  | op operation k => op operation fun status => (k status).lift view put

@[simp] theorem bind_eq (program : Program σ ω ε α) (next : α → Program σ ω ε β) :
    program >>= next = program.bind next := rfl

@[simp] theorem pure_eq (value : α) : (pure value : Program σ ω ε α) = ret value := rfl

@[simp] theorem ret_bind (value : α) (next : α → Program σ ω ε β) :
    (ret value).bind next = next value := rfl

@[simp] theorem look_bind (k : σ → Program σ ω ε α) (next : α → Program σ ω ε β) :
    (look k).bind next = look fun state => (k state).bind next := rfl

@[simp] theorem assign_bind (update : σ → σ) (k : Program σ ω ε α)
    (next : α → Program σ ω ε β) : (assign update k).bind next = assign update (k.bind next) := rfl

@[simp] theorem op_bind (operation : ω) (k : ε → Program σ ω ε α)
    (next : α → Program σ ω ε β) :
    (op operation k).bind next = op operation fun status => (k status).bind next := rfl

theorem bind_assoc {γ : Type} (program : Program σ ω ε α) (next : α → Program σ ω ε β)
    (last : β → Program σ ω ε γ) :
    (program.bind next).bind last = program.bind fun value => (next value).bind last := by
  induction program with
  | ret value => rfl
  | look k ih => exact congrArg look (funext ih)
  | assign update k ih => exact congrArg (assign update) ih
  | op operation k ih => exact congrArg (op operation) (funext ih)

end Program

namespace Device

open Program

variable (D : Device σ ω ε)

/-- Run a program against a list of answers. Once the answers are used up every
further operation is done, so the empty list is the undisturbed run. -/
def exec : Program σ ω ε α → List (Answer ε) → σ → Outcome σ ε α
  | ret value, answers, state => ⟨some value, state, answers⟩
  | look k, answers, state => exec (k state) answers state
  | assign update k, answers, state => exec k answers (update state)
  | op operation k, [], state => exec (k D.success) [] (D.perform operation state)
  | op operation k, .done :: answers, state =>
      exec (k D.success) answers (D.perform operation state)
  | op operation k, .fail status performed :: answers, state =>
      exec (k status) answers (if performed then D.perform operation state else state)
  | op _ _, .cut :: answers, state => ⟨none, state, answers⟩

/-- The undisturbed run: every operation is done. -/
def run : Program σ ω ε α → σ → α × σ
  | ret value, state => (value, state)
  | look k, state => run (k state) state
  | assign update k, state => run k (update state)
  | op operation k, state => run (k D.success) (D.perform operation state)

/-- The operations of the undisturbed run, each with the state it met. -/
def ops : Program σ ω ε α → σ → List (σ × ω)
  | ret _, _ => []
  | look k, state => ops (k state) state
  | assign update k, state => ops k (update state)
  | op operation k, state =>
      (state, operation) :: ops (k D.success) (D.perform operation state)

@[simp] theorem run_ret (value : α) (state : σ) : D.run (ret value) state = (value, state) := rfl

@[simp] theorem run_look (k : σ → Program σ ω ε α) (state : σ) :
    D.run (look k) state = D.run (k state) state := rfl

@[simp] theorem run_assign (update : σ → σ) (k : Program σ ω ε α) (state : σ) :
    D.run (assign update k) state = D.run k (update state) := rfl

@[simp] theorem run_op (operation : ω) (k : ε → Program σ ω ε α) (state : σ) :
    D.run (op operation k) state = D.run (k D.success) (D.perform operation state) := rfl

theorem run_bind (program : Program σ ω ε α) (next : α → Program σ ω ε β) (state : σ) :
    D.run (program.bind next) state =
      D.run (next (D.run program state).1) (D.run program state).2 := by
  induction program generalizing state with
  | ret value => rfl
  | look k ih => exact ih state state
  | assign update k ih => exact ih (update state)
  | op operation k ih => exact ih D.success (D.perform operation state)

theorem ops_bind (program : Program σ ω ε α) (next : α → Program σ ω ε β) (state : σ) :
    D.ops (program.bind next) state = D.ops program state ++
      D.ops (next (D.run program state).1) (D.run program state).2 := by
  induction program generalizing state with
  | ret value => rfl
  | look k ih => exact ih state state
  | assign update k ih => exact ih (update state)
  | op operation k ih =>
      exact congrArg ((state, operation) :: ·) (ih D.success (D.perform operation state))

/-- Without answers the run is the undisturbed one. -/
theorem exec_nil (program : Program σ ω ε α) (state : σ) :
    D.exec program [] state = ⟨some (D.run program state).1, (D.run program state).2, []⟩ := by
  induction program generalizing state with
  | ret value => rfl
  | look k ih => exact ih state state
  | assign update k ih => exact ih (update state)
  | op operation k ih => exact ih D.success (D.perform operation state)

theorem exec_bind (program : Program σ ω ε α) (next : α → Program σ ω ε β)
    (answers : List (Answer ε)) (state : σ) :
    D.exec (program.bind next) answers state =
      match D.exec program answers state with
      | ⟨some value, middle, rest⟩ => D.exec (next value) rest middle
      | ⟨none, middle, rest⟩ => ⟨none, middle, rest⟩ := by
  induction program generalizing answers state with
  | ret value => rfl
  | look k ih => exact ih state answers state
  | assign update k ih => exact ih answers (update state)
  | op operation k ih =>
      cases answers with
      | nil => exact ih D.success [] (D.perform operation state)
      | cons answer answers =>
          cases answer with
          | done => exact ih D.success answers (D.perform operation state)
          | fail status performed => exact ih status answers _
          | cut => rfl

theorem exec_rest_subset (program : Program σ ω ε α) (answers : List (Answer ε)) (state : σ) :
    (D.exec program answers state).rest ⊆ answers := by
  induction program generalizing answers state with
  | ret value => exact List.Subset.refl _
  | look k ih => exact ih state answers state
  | assign update k ih => exact ih answers (update state)
  | op operation k ih =>
      cases answers with
      | nil => exact ih D.success [] (D.perform operation state)
      | cons answer answers =>
          cases answer with
          | done =>
              exact List.Subset.trans (ih D.success answers (D.perform operation state))
                (List.subset_cons_self _ _)
          | fail status performed =>
              exact List.Subset.trans (ih status answers _) (List.subset_cons_self _ _)
          | cut => exact List.subset_cons_self _ _

/-- Unless power is lost a program returns. -/
theorem exec_isSome (program : Program σ ω ε α) {answers : List (Answer ε)} (state : σ)
    (h : .cut ∉ answers) : (D.exec program answers state).result.isSome := by
  induction program generalizing answers state with
  | ret value => rfl
  | look k ih => exact ih state state h
  | assign update k ih => exact ih (update state) h
  | op operation k ih =>
      cases answers with
      | nil => exact ih D.success (D.perform operation state) h
      | cons answer answers =>
          have htail : .cut ∉ answers := fun hmem => h (List.mem_cons_of_mem _ hmem)
          cases answer with
          | done => exact ih D.success (D.perform operation state) htail
          | fail status performed => exact ih status _ htail
          | cut => exact absurd List.mem_cons_self h

/-- A component of a larger state that a device `D` works on, seen from a device
`D'` of the whole. -/
structure Component (D : Device σ ω ε) (D' : Device τ ω ε) (view : τ → σ) (put : σ → τ → τ) :
    Prop where
  view_put : ∀ part state, view (put part state) = part
  put_put : ∀ part part' state, put part (put part' state) = put part state
  put_view : ∀ state, put (view state) state = state
  perform_eq : ∀ operation state,
    D'.perform operation state = put (D.perform operation (view state)) state
  success_eq : D'.success = D.success

section Lift

variable {D : Device σ ω ε} {D' : Device τ ω ε} {view : τ → σ} {put : σ → τ → τ}

theorem Component.view_perform (h : Component D D' view put) (operation : ω) (state : τ) :
    view (D'.perform operation state) = D.perform operation (view state) := by
  rw [h.perform_eq, h.view_put]

theorem Component.put_perform (h : Component D D' view put) (part : σ) (operation : ω)
    (state : τ) : put part (D'.perform operation state) = put part state := by
  rw [h.perform_eq, h.put_put]

/-- A lifted program runs as it does on its component. -/
theorem exec_lift (h : Component D D' view put) (program : Program σ ω ε α)
    (answers : List (Answer ε)) (state : τ) :
    D'.exec (program.lift view put) answers state =
      ⟨(D.exec program answers (view state)).result,
        put (D.exec program answers (view state)).state state,
        (D.exec program answers (view state)).rest⟩ := by
  induction program generalizing answers state with
  | ret value => simp only [lift, exec, h.put_view]
  | look k ih => exact ih _ answers state
  | assign update k ih => simp only [lift, exec, ih, h.view_put, h.put_put]
  | op operation k ih =>
      cases answers with
      | nil => simp only [lift, exec, ih, h.view_perform, h.put_perform, h.success_eq]
      | cons answer answers =>
          cases answer with
          | done => simp only [lift, exec, ih, h.view_perform, h.put_perform, h.success_eq]
          | fail status performed =>
              cases performed
              · simp only [lift, exec, ih, Bool.false_eq_true, if_false]
              · simp only [lift, exec, ih, if_true, h.view_perform, h.put_perform]
          | cut => simp only [lift, exec, h.put_view]

end Lift

/-! ## Pre- and postconditions with a crash condition

`D.Wp A program Q C state` says that, against every list of answers allowed by
`A`, the program started in `state` either returns with `Q`, or loses power in a
state satisfying `C`.
-/

def Wp (A : Answer ε → Prop) (program : Program σ ω ε α) (Q : α → σ → Prop) (C : σ → Prop)
    (state : σ) : Prop :=
  ∀ answers : List (Answer ε), (∀ answer ∈ answers, A answer) →
    match D.exec program answers state with
    | ⟨some value, final, _⟩ => Q value final
    | ⟨none, final, _⟩ => C final

variable {D} {A : Answer ε → Prop} {Q Q' : α → σ → Prop} {C C' : σ → Prop} {state : σ}

theorem wp_ret {value : α} (h : Q value state) : D.Wp A (ret value) Q C state :=
  fun _ _ => h

theorem wp_look {k : σ → Program σ ω ε α} (h : D.Wp A (k state) Q C state) :
    D.Wp A (look k) Q C state := h

theorem wp_assign {update : σ → σ} {k : Program σ ω ε α} (h : D.Wp A k Q C (update state)) :
    D.Wp A (assign update k) Q C state := h

theorem wp_op {operation : ω} {k : ε → Program σ ω ε α}
    (hdone : D.Wp A (k D.success) Q C (D.perform operation state))
    (hfail : ∀ status performed, A (.fail status performed) →
      D.Wp A (k status) Q C (if performed then D.perform operation state else state))
    (hcut : A .cut → C state) : D.Wp A (op operation k) Q C state := by
  intro answers hanswers
  cases answers with
  | nil => exact hdone [] (by simp)
  | cons answer answers =>
      have htail : ∀ a ∈ answers, A a := fun a ha => hanswers a (List.mem_cons_of_mem _ ha)
      have hhead := hanswers answer List.mem_cons_self
      cases answer with
      | done => exact hdone answers htail
      | fail status performed => exact hfail status performed hhead answers htail
      | cut => exact hcut hhead

theorem wp_bind {program : Program σ ω ε α} {next : α → Program σ ω ε β} {R : β → σ → Prop}
    (h : D.Wp A program (fun value middle => D.Wp A (next value) R C middle) C state) :
    D.Wp A (program.bind next) R C state := by
  intro answers hanswers
  have hfirst := h answers hanswers
  have hrest := D.exec_rest_subset program answers state
  rw [exec_bind]
  cases hexec : D.exec program answers state with
  | mk result middle rest =>
      rw [hexec] at hfirst hrest
      cases result with
      | none => exact hfirst
      | some value => exact hfirst rest fun a ha => hanswers a (hrest ha)

theorem wp_mono {program : Program σ ω ε α} (h : D.Wp A program Q C state)
    (hq : ∀ value final, Q value final → Q' value final) (hc : ∀ final, C final → C' final) :
    D.Wp A program Q' C' state := by
  intro answers hanswers
  have hrun := h answers hanswers
  split at hrun
  next value final rest hexec => exact hq value final hrun
  next final rest hexec => exact hc final hrun

/-- A specification also describes the undisturbed run. -/
theorem Wp.run {program : Program σ ω ε α} (h : D.Wp A program Q C state) :
    Q (D.run program state).1 (D.run program state).2 := by
  have hrun := h [] (by simp)
  rw [exec_nil] at hrun
  exact hrun

end Device

end Bldc.Foundation
