import Mathlib.Data.List.Basic
import Mathlib.Tactic.Common

/-!
# Sessions of requests and replies

A session asks for one thing after the other, and what it asks for next may depend on the
replies. Who replies is left open: the same session can be held over a medium and with the one
at its far end. If each request has the same reply on both sides, so has the whole session.
-/

namespace Bldc.Foundation

inductive Session (ι ο α : Type) where
  | ret (value : α)
  | ask (request : ι) (next : ο → Session ι ο α)

/-- One that replies, and what each request makes of it. -/
abbrev Responder (σ ι ο : Type) : Type := σ → ι → σ × ο

variable {σ τ ι ο α β γ : Type}

namespace Session

def bind : Session ι ο α → (α → Session ι ο β) → Session ι ο β
  | ret value, next => next value
  | ask request k, next => ask request fun reply => (k reply).bind next

instance : Monad (Session ι ο) where
  pure := ret
  bind := bind

/-- A single request. -/
def request (request : ι) : Session ι ο ο := ask request ret

/-- The value of a session, and what it makes of the one that replies. -/
def run (R : Responder σ ι ο) : Session ι ο α → σ → α × σ
  | ret value, state => (value, state)
  | ask request k, state => run R (k (R state request).2) (R state request).1

/-- The requests, each with the state that it meets. -/
def asked (R : Responder σ ι ο) : Session ι ο α → σ → List (σ × ι)
  | ret _, _ => []
  | ask request k, state =>
      (state, request) :: asked R (k (R state request).2) (R state request).1

@[simp] theorem bind_eq (session : Session ι ο α) (next : α → Session ι ο β) :
    session >>= next = session.bind next := rfl

@[simp] theorem pure_eq (value : α) : (pure value : Session ι ο α) = ret value := rfl

@[simp] theorem ret_bind (value : α) (next : α → Session ι ο β) :
    (ret value).bind next = next value := rfl

theorem bind_assoc (session : Session ι ο α) (next : α → Session ι ο β)
    (last : β → Session ι ο γ) :
    (session.bind next).bind last = session.bind fun value => (next value).bind last := by
  induction session with
  | ret value => rfl
  | ask request k ih => exact congrArg (ask request) (funext ih)

@[simp] theorem run_ret (R : Responder σ ι ο) (value : α) (state : σ) :
    run R (ret value) state = (value, state) := rfl

@[simp] theorem run_bind (R : Responder σ ι ο) (session : Session ι ο α)
    (next : α → Session ι ο β) (state : σ) :
    run R (session.bind next) state =
      run R (next (run R session state).1) (run R session state).2 := by
  induction session generalizing state with
  | ret value => rfl
  | ask request k ih => exact ih _ _

@[simp] theorem asked_ret (R : Responder σ ι ο) (value : α) (state : σ) :
    asked R (ret value) state = [] := rfl

@[simp] theorem asked_bind (R : Responder σ ι ο) (session : Session ι ο α)
    (next : α → Session ι ο β) (state : σ) :
    asked R (session.bind next) state =
      asked R session state ++ asked R (next (run R session state).1) (run R session state).2 := by
  induction session generalizing state with
  | ret value => rfl
  | ask request k ih => exact congrArg ((state, request) :: ·) (ih _ _)

/-- A session is the same with two that reply the same. -/
theorem run_related {R : Responder σ ι ο} {S : Responder τ ι ο} {Q : σ → τ → Prop}
    (h : ∀ state state' request, Q state state' →
      Q (R state request).1 (S state' request).1 ∧ (R state request).2 = (S state' request).2)
    (session : Session ι ο α) {state : σ} {state' : τ} (hsame : Q state state') :
    Q (run R session state).2 (run S session state').2 ∧
      (run R session state).1 = (run S session state').1 := by
  induction session generalizing state state' with
  | ret value => exact ⟨hsame, rfl⟩
  | ask request k ih =>
      obtain ⟨hnext, hreply⟩ := h state state' request hsame
      unfold run
      rw [hreply]
      exact ih _ hnext

/-- Whatever the replies are, the session asks only for such things. -/
def Asks (P : ι → Prop) : Session ι ο α → Prop
  | ret _ => True
  | ask request k => P request ∧ ∀ reply, Asks P (k reply)

theorem Asks.bind {P : ι → Prop} {session : Session ι ο α} {next : α → Session ι ο β}
    (h : Asks P session) (hnext : ∀ value, Asks P (next value)) : Asks P (session.bind next) := by
  induction session with
  | ret value => exact hnext value
  | ask request k ih => exact ⟨h.1, fun reply => ih reply (h.2 reply)⟩

theorem Asks.mono {P Q : ι → Prop} {session : Session ι ο α} (h : Asks P session)
    (hle : ∀ request, P request → Q request) : Asks Q session := by
  induction session with
  | ret value => trivial
  | ask request k ih => exact ⟨hle request h.1, fun reply => ih reply (h.2 reply)⟩

theorem Asks.asked {P : ι → Prop} {R : Responder σ ι ο} {session : Session ι ο α}
    (h : Asks P session) (state : σ) : ∀ asked ∈ session.asked R state, P asked.2 := by
  induction session generalizing state with
  | ret value => simp
  | ask request k ih =>
      intro asked hasked
      rcases List.mem_cons.1 hasked with rfl | hasked
      · exact h.1
      · exact ih _ (h.2 _) _ asked hasked

/-- What all requests of a session keep, the session keeps. -/
theorem Asks.run {P : ι → Prop} {R : Responder σ ι ο} {I : σ → Prop} {session : Session ι ο α}
    (h : Asks P session) (hkeep : ∀ state request, P request → I state → I (R state request).1)
    {state : σ} (hstate : I state) : I (run R session state).2 := by
  induction session generalizing state with
  | ret value => exact hstate
  | ask request k ih => exact ih _ (h.2 _) (hkeep state request h.1 hstate)

end Session

end Bldc.Foundation
