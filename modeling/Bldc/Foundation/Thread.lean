import Bldc.Foundation.Machine
import Mathlib.Data.Stream.Init

/-!
# Threads over a machine

A thread looks at the state of a machine, gives it inputs, takes readings, and
sleeps. While it sleeps the machine gets other inputs. A run of a thread is
determined by the readings it is given and by what happens during its sleeps;
`wp` says what it ensures whatever these are, as long as the others respect a
relation.
-/

namespace Bldc.Foundation

inductive Thread (σ ι ρ α : Type) where
  | ret (value : α)
  | look (next : σ → Thread σ ι ρ α)
  | act (input : ι) (next : Thread σ ι ρ α)
  | sense (next : ρ → Thread σ ι ρ α)
  | sleep (next : Thread σ ι ρ α)

variable {σ ι ο ρ α β γ : Type}

/-- The readings a thread is given, and the inputs the machine gets from others
during each of its sleeps. -/
structure World (ρ ι : Type) where
  readings : Stream' ρ
  wakes : Stream' (List ι)

namespace World

variable (w : World ρ ι)

/-- After one reading. -/
def sensed : World ρ ι := { w with readings := w.readings.tail }

/-- After one sleep. -/
def slept : World ρ ι := { w with wakes := w.wakes.tail }

/-- Others give only such inputs. -/
def Only (P : ι → Prop) : Prop := ∀ n, ∀ input ∈ w.wakes.get n, P input

variable {w}

theorem Only.slept {P : ι → Prop} (h : w.Only P) : w.slept.Only P := fun n => h (n + 1)

end World

namespace Thread

def bind : Thread σ ι ρ α → (α → Thread σ ι ρ β) → Thread σ ι ρ β
  | ret value, next => next value
  | look k, next => look fun state => (k state).bind next
  | act input k, next => act input (k.bind next)
  | sense k, next => sense fun reading => (k reading).bind next
  | sleep k, next => sleep (k.bind next)

instance : Monad (Thread σ ι ρ) where
  pure := ret
  bind := bind

/-- The state of the machine. -/
def state : Thread σ ι ρ σ := look ret

/-- Give the machine an input. -/
def give (input : ι) : Thread σ ι ρ Unit := act input (ret ())

/-- Take a reading. -/
def reading : Thread σ ι ρ ρ := sense ret

/-- Sleep once. -/
def pause : Thread σ ι ρ Unit := sleep (ret ())

/-- One round for each item, until one of them ends the loop. The returned flag
says whether one did. -/
def each (body : γ → β → Thread σ ι ρ (β × Bool)) : List γ → β → Thread σ ι ρ (β × Bool)
  | [], value => ret (value, false)
  | item :: items, value =>
      (body item value).bind fun result =>
        if result.2 then ret result else each body items result.1

@[simp] theorem bind_eq (thread : Thread σ ι ρ α) (next : α → Thread σ ι ρ β) :
    thread >>= next = thread.bind next := rfl

@[simp] theorem pure_eq (value : α) : (pure value : Thread σ ι ρ α) = ret value := rfl

/-! ## Runs -/

/-- The value returned, the state left behind and the rest of the world. -/
def exec (M : Machine σ ι ο) : Thread σ ι ρ α → World ρ ι → σ → α × σ × World ρ ι
  | ret value, w, s => (value, s, w)
  | look k, w, s => exec M (k s) w s
  | act input k, w, s => exec M k w (M.step s input).1
  | sense k, w, s => exec M (k w.readings.head) w.sensed s
  | sleep k, w, s => exec M k w.slept (M.run s w.wakes.head).1

/-- The state left behind. -/
def final (M : Machine σ ι ο) (thread : Thread σ ι ρ α) (w : World ρ ι) (s : σ) : σ :=
  (exec M thread w s).2.1

variable {M : Machine σ ι ο}

theorem exec_bind (thread : Thread σ ι ρ α) (next : α → Thread σ ι ρ β) (w : World ρ ι) (s : σ) :
    exec M (thread.bind next) w s =
      exec M (next (exec M thread w s).1) (exec M thread w s).2.2 (exec M thread w s).2.1 := by
  induction thread generalizing w s with
  | ret value => rfl
  | look k ih => exact ih s w s
  | act input k ih => exact ih w _
  | sense k ih => exact ih _ _ s
  | sleep k ih => exact ih _ _

@[simp] theorem exec_ret (value : α) (w : World ρ ι) (s : σ) :
    exec M (ret value) w s = (value, s, w) := rfl

@[simp] theorem exec_state (w : World ρ ι) (s : σ) : exec M state w s = (s, s, w) := rfl

@[simp] theorem exec_give (input : ι) (w : World ρ ι) (s : σ) :
    exec M (give input) w s = ((), (M.step s input).1, w) := rfl

/-- What is left of the sleeps is the end of what there was. -/
theorem exec_wakes (M : Machine σ ι ο) (thread : Thread σ ι ρ α) (w : World ρ ι) (s : σ) :
    ∃ n, (exec M thread w s).2.2.wakes = w.wakes.drop n := by
  induction thread generalizing w s with
  | ret value => exact ⟨0, rfl⟩
  | look k ih => exact ih s w s
  | act input k ih => exact ih w _
  | sense k ih => exact ih _ w.sensed s
  | sleep k ih =>
      obtain ⟨n, hn⟩ := ih w.slept (M.run s w.wakes.head).1
      exact ⟨n + 1, hn⟩

section Preserves

variable {I : World ρ ι → σ → Prop}

end Preserves

/-! ## What a thread ensures -/

/-- The thread returns with `Q`, whatever it reads and whatever happens within `R`
during its sleeps. -/
def wp (M : Machine σ ι ο) (R : σ → σ → Prop) (Q : α → σ → Prop) : Thread σ ι ρ α → σ → Prop
  | ret value, s => Q value s
  | look k, s => wp M R Q (k s) s
  | act input k, s => wp M R Q k (M.step s input).1
  | sense k, s => ∀ reading, wp M R Q (k reading) s
  | sleep k, s => ∀ s', R s s' → wp M R Q k s'

variable {R : σ → σ → Prop}

@[simp] theorem wp_ret {Q : α → σ → Prop} {value : α} {s : σ} :
    wp M R Q (ret value : Thread σ ι ρ α) s ↔ Q value s := Iff.rfl

@[simp] theorem wp_bind {Q : β → σ → Prop} {thread : Thread σ ι ρ α} {next : α → Thread σ ι ρ β}
    {s : σ} :
    wp M R Q (thread.bind next) s ↔ wp M R (fun value s => wp M R Q (next value) s) thread s := by
  induction thread generalizing s with
  | ret value => rfl
  | look k ih => exact ih s
  | act input k ih => exact ih
  | sense k ih => exact forall_congr' fun reading => ih reading
  | sleep k ih => exact forall₂_congr fun s' _ => ih

@[simp] theorem wp_state {Q : σ → σ → Prop} {s : σ} :
    wp M R Q (state : Thread σ ι ρ σ) s ↔ Q s s := Iff.rfl

@[simp] theorem wp_give {Q : Unit → σ → Prop} {input : ι} {s : σ} :
    wp M R Q (give input : Thread σ ι ρ Unit) s ↔ Q () (M.step s input).1 := Iff.rfl

@[simp] theorem wp_reading {Q : ρ → σ → Prop} {s : σ} :
    wp M R Q (reading : Thread σ ι ρ ρ) s ↔ ∀ reading, Q reading s := Iff.rfl

@[simp] theorem wp_pause {Q : Unit → σ → Prop} {s : σ} :
    wp M R Q (pause : Thread σ ι ρ Unit) s ↔ ∀ s', R s s' → Q () s' := Iff.rfl

theorem wp_mono {Q Q' : α → σ → Prop} (hQ : ∀ value s, Q value s → Q' value s)
    {thread : Thread σ ι ρ α} {s : σ} (h : wp M R Q thread s) : wp M R Q' thread s := by
  induction thread generalizing s with
  | ret value => exact hQ value s h
  | look k ih => exact ih s h
  | act input k ih => exact ih h
  | sense k ih => exact fun reading => ih reading (h reading)
  | sleep k ih => exact fun s' hs' => ih (h s' hs')

/-- Every input the thread may give has the property. -/
def Gives (P : ι → Prop) : Thread σ ι ρ α → Prop
  | ret _ => True
  | look k => ∀ s, (k s).Gives P
  | act input k => P input ∧ k.Gives P
  | sense k => ∀ reading, (k reading).Gives P
  | sleep k => k.Gives P

section Gives

variable {P : ι → Prop}

@[simp] theorem gives_ret {value : α} : (ret value : Thread σ ι ρ α).Gives P ↔ True := Iff.rfl

@[simp] theorem gives_state : (state : Thread σ ι ρ σ).Gives P ↔ True := by simp [state, Gives]

@[simp] theorem gives_give {input : ι} : (give input : Thread σ ι ρ Unit).Gives P ↔ P input := by
  simp [give, Gives]

@[simp] theorem gives_reading : (reading : Thread σ ι ρ ρ).Gives P ↔ True := by
  simp [reading, Gives]

@[simp] theorem gives_pause : (pause : Thread σ ι ρ Unit).Gives P ↔ True := by simp [pause, Gives]

theorem gives_bind {thread : Thread σ ι ρ α} {next : α → Thread σ ι ρ β} (h : thread.Gives P)
    (hnext : ∀ value, (next value).Gives P) : (thread.bind next).Gives P := by
  induction thread with
  | ret value => exact hnext value
  | look k ih => exact fun s => ih s (h s)
  | act input k ih => exact ⟨h.1, ih h.2⟩
  | sense k ih => exact fun reading => ih reading (h reading)
  | sleep k ih => exact ih h

theorem gives_each {body : γ → β → Thread σ ι ρ (β × Bool)}
    (hbody : ∀ item value, (body item value).Gives P) (items : List γ) (value : β) :
    (each body items value).Gives P := by
  induction items generalizing value with
  | nil => trivial
  | cons item items ih =>
      refine gives_bind (hbody item value) fun result => ?_
      split
      next => trivial
      next => exact ih result.1

end Gives

/-! ## The inputs of a run -/

/-- The inputs that the thread itself gives. -/
def given (M : Machine σ ι ο) : Thread σ ι ρ α → World ρ ι → σ → List ι
  | ret _, _, _ => []
  | look k, w, s => given M (k s) w s
  | act input k, w, s => input :: given M k w (M.step s input).1
  | sense k, w, s => given M (k w.readings.head) w.sensed s
  | sleep k, w, s => given M k w.slept (M.run s w.wakes.head).1

theorem given_bind (thread : Thread σ ι ρ α) (next : α → Thread σ ι ρ β) (w : World ρ ι) (s : σ) :
    given M (thread.bind next) w s = given M thread w s ++
      given M (next (exec M thread w s).1) (exec M thread w s).2.2 (exec M thread w s).2.1 := by
  induction thread generalizing w s with
  | ret value => rfl
  | look k ih => exact ih s w s
  | act input k ih => exact congrArg (input :: ·) (ih w _)
  | sense k ih => exact ih _ _ s
  | sleep k ih => exact ih _ _

@[simp] theorem given_ret (value : α) (w : World ρ ι) (s : σ) :
    given M (ret value) w s = [] := rfl

@[simp] theorem given_state (w : World ρ ι) (s : σ) : given M state w s = [] := rfl

@[simp] theorem given_give (input : ι) (w : World ρ ι) (s : σ) :
    given M (give input) w s = [input] := rfl

@[simp] theorem given_reading (w : World ρ ι) (s : σ) : given M reading w s = [] := rfl

theorem given_of_gives {P : ι → Prop} {thread : Thread σ ι ρ α} (h : thread.Gives P)
    (w : World ρ ι) (s : σ) : ∀ input ∈ given M thread w s, P input := by
  induction thread generalizing w s with
  | ret value => exact fun _ hmem => absurd hmem List.not_mem_nil
  | look k ih => exact ih s (h s) w s
  | act input k ih =>
      intro other hmem
      rcases List.mem_cons.1 hmem with rfl | hmem
      · exact h.1
      · exact ih h.2 w _ other hmem
  | sense k ih => exact ih _ (h _) _ s
  | sleep k ih => exact ih h _ _

/-! ## Searches -/

/-- The items that are tried up to the first at whose value the search stops, and that one. -/
def search (stops : γ → β → Bool) : List γ → (Nat → β) → List γ × Option γ
  | [], _ => ([], none)
  | item :: items, values =>
      if stops item (values 0) then ([item], some item)
      else
        let rest := search stops items fun n => values (n + 1)
        (item :: rest.1, rest.2)

section Search

variable {stops : γ → β → Bool}

theorem search_comp {δ : Type} (part : δ → β) (items : List γ) (values : Nat → δ) :
    search (fun item value => stops item (part value)) items values =
      search stops items fun n => part (values n) := by
  induction items generalizing values with
  | nil => rfl
  | cons item items ih =>
      unfold search
      rw [ih]

/-- The loop that measures at each item and stops at the first value that is good enough. -/
def searching (stops : γ → β → Bool) (measure : γ → Thread σ ι ρ β) (item found : γ) :
    Thread σ ι ρ (γ × Bool) :=
  (measure item).bind fun value =>
    if stops item value then ret (item, true) else ret (found, false)

/-- A run of the loop is the search through the values that were measured. -/
theorem exec_each_searching {δ : Type} {measure : γ → Thread σ ι ρ β} {only : ι → Option δ}
    {trace : γ → List δ}
    (hmeasure : ∀ item w s, (given M (measure item) w s).filterMap only = trace item)
    (items : List γ) (found : γ) (w : World ρ ι) (s : σ) :
    ∃ values : Nat → β,
      (exec M (each (searching stops measure) items found) w s).1.1 =
          (search stops items values).2.getD found ∧
        (given M (each (searching stops measure) items found) w s).filterMap only =
          (search stops items values).1.flatMap trace := by
  induction items generalizing w s with
  | nil => exact ⟨fun _ => (exec M (measure found) w s).1, rfl, rfl⟩
  | cons item items ih =>
      obtain ⟨values, hvalue, htrace⟩ :=
        ih (exec M (measure item) w s).2.2 (exec M (measure item) w s).2.1
      refine ⟨fun n => n.rec (exec M (measure item) w s).1 fun n _ => values n, ?_⟩
      have hfirst := hmeasure item w s
      simp only [each, searching, exec_bind, given_bind, search, Nat.rec_zero]
      split
      next hstops =>
        simp only [exec_ret, given_ret, List.append_nil, if_true, hfirst, List.flatMap_cons,
          List.flatMap_nil, Option.getD_some, and_self]
      next hstops =>
        simp only [exec_ret, given_ret, List.append_nil, Bool.false_eq_true, if_false,
          List.filterMap_append, hfirst, htrace, hvalue, List.flatMap_cons, and_self]

end Search

/-! ## One piece of a run -/

/-- Where a thread is when it lets the others run. -/
inductive Progress (σ ι ρ α : Type) where
  | done (value : α) (readings : Stream' ρ) (state : σ)
  | asleep (rest : Thread σ ι ρ α) (state : σ)

/-- Run the thread until it sleeps or returns. -/
def advance (M : Machine σ ι ο) : Thread σ ι ρ α → Stream' ρ → σ → Progress σ ι ρ α
  | ret value, readings, s => .done value readings s
  | look k, readings, s => advance M (k s) readings s
  | act input k, readings, s => advance M k readings (M.step s input).1
  | sense k, readings, s => advance M (k readings.head) readings.tail s
  | sleep k, _, s => .asleep k s

/-- Go on with another thread after a piece of the first. -/
def Progress.andThen (M : Machine σ ι ο) (next : α → Thread σ ι ρ β) :
    Progress σ ι ρ α → Progress σ ι ρ β
  | .done value readings s => advance M (next value) readings s
  | .asleep rest s => .asleep (rest.bind next) s

@[simp] theorem advance_ret (value : α) (readings : Stream' ρ) (s : σ) :
    advance M (ret value : Thread σ ι ρ α) readings s = .done value readings s := rfl

@[simp] theorem advance_state (readings : Stream' ρ) (s : σ) :
    advance M (state : Thread σ ι ρ σ) readings s = .done s readings s := rfl

@[simp] theorem advance_give (input : ι) (readings : Stream' ρ) (s : σ) :
    advance M (give input : Thread σ ι ρ Unit) readings s =
      .done () readings (M.step s input).1 := rfl

@[simp] theorem advance_reading (readings : Stream' ρ) (s : σ) :
    advance M (reading : Thread σ ι ρ ρ) readings s = .done readings.head readings.tail s := rfl

@[simp] theorem advance_pause (readings : Stream' ρ) (s : σ) :
    advance M (pause : Thread σ ι ρ Unit) readings s = .asleep (ret ()) s := rfl

theorem advance_bind (thread : Thread σ ι ρ α) (next : α → Thread σ ι ρ β) (readings : Stream' ρ)
    (s : σ) : advance M (thread.bind next) readings s =
      (advance M thread readings s).andThen M next := by
  induction thread generalizing readings s with
  | ret value => rfl
  | look k ih => exact ih s readings s
  | act input k ih => exact ih readings _
  | sense k ih => exact ih _ _ s
  | sleep k ih => rfl

/-- What a thread ensures in the end, what is left of it ensures. -/
theorem wp_advance {Q : α → σ → Prop} {thread : Thread σ ι ρ α} {s : σ} (h : wp M R Q thread s)
    (readings : Stream' ρ) :
    match advance M thread readings s with
    | .done value _ t => Q value t
    | .asleep rest t => ∀ t', R t t' → wp M R Q rest t' := by
  induction thread generalizing readings s with
  | ret value => exact h
  | look k ih => exact ih s h readings
  | act input k ih => exact ih h readings
  | sense k ih => exact ih _ (h _) _
  | sleep k ih => exact h

/-- What the inputs of a thread keep, a piece of it keeps. -/
theorem gives_advance {P : ι → Prop} {K : σ → Prop}
    (hstep : ∀ s input, P input → K s → K (M.step s input).1) {thread : Thread σ ι ρ α}
    (h : thread.Gives P) {s : σ} (hs : K s) (readings : Stream' ρ) :
    match advance M thread readings s with
    | .done _ _ t => K t
    | .asleep rest t => rest.Gives P ∧ K t := by
  induction thread generalizing readings s with
  | ret value => exact hs
  | look k ih => exact ih s (h s) hs readings
  | act input k ih => exact ih h.2 (hstep s input h.1 hs) readings
  | sense k ih => exact ih _ (h _) hs _
  | sleep k ih => exact ⟨h, hs⟩

/-- Every thread ensures what always holds. -/
theorem wp_of_forall {Q : α → σ → Prop} (hQ : ∀ value s, Q value s) (thread : Thread σ ι ρ α)
    (s : σ) : wp M R Q thread s := by
  induction thread generalizing s with
  | ret value => exact hQ value s
  | look k ih => exact ih s s
  | act input k ih => exact ih _
  | sense k ih => exact fun reading => ih reading s
  | sleep k ih => exact fun s' _ => ih s'

end Thread

end Bldc.Foundation
