import Bldc.Foundation.Machine
import Mathlib.Logic.Function.Basic

/-!
# Machines on a bus

What one node puts on the bus reaches all others, each of which has a queue of what it has not
handled yet. In every order of sending and handling, a node is a run of its own machine over
the first of the messages that the others have sent, and the rest is in its queue.
-/

namespace Bldc.Foundation

variable {ν σ κ μ ο : Type} [DecidableEq ν]

/-- The nodes, and what is on its way to each of them. -/
structure Bus (ν σ μ : Type) where
  node : ν → σ
  inbox : ν → List μ

/-- A node sends a message, or it handles the next one, in some context of its own. -/
inductive BusStep (ν κ μ : Type) where
  | send (sender : ν) (message : μ)
  | handle (receiver : ν) (context : κ)

namespace Bus

/-- All nodes but the sender get the message. -/
def put (b : Bus ν σ μ) (sender : ν) (message : μ) : Bus ν σ μ :=
  { b with
    inbox := fun receiver =>
      if receiver = sender then b.inbox receiver else b.inbox receiver ++ [message] }

/-- The receiver handles its first message, if there is one. -/
def take (M : Machine σ (κ × μ) ο) (b : Bus ν σ μ) (receiver : ν) (context : κ) :
    Bus ν σ μ × List (ν × ο) :=
  match b.inbox receiver with
  | [] => (b, [])
  | message :: rest =>
      let r := M.step (b.node receiver) (context, message)
      (⟨Function.update b.node receiver r.1, Function.update b.inbox receiver rest⟩,
        r.2.map fun output => (receiver, output))

end Bus

/-- The nodes on their bus. -/
def bus (M : Machine σ (κ × μ) ο) : Machine (Bus ν σ μ) (BusStep ν κ μ) (ν × ο) where
  step b
    | .send sender message => (b.put sender message, [])
    | .handle receiver context => b.take M receiver context

/-- What the others have sent. -/
def sentTo (receiver : ν) (steps : List (BusStep ν κ μ)) : List μ :=
  steps.filterMap fun
    | .send sender message => if receiver = sender then none else some message
    | .handle _ _ => none

/-- The outputs of one node. -/
def emittedBy (receiver : ν) (outputs : List (ν × ο)) : List ο :=
  outputs.filterMap fun output => if output.1 = receiver then some output.2 else none

theorem emittedBy_append (receiver : ν) (outputs more : List (ν × ο)) :
    emittedBy receiver (outputs ++ more) = emittedBy receiver outputs ++ emittedBy receiver more :=
  List.filterMap_append

theorem emittedBy_self (receiver : ν) (outputs : List ο) :
    emittedBy receiver (outputs.map fun output => (receiver, output)) = outputs := by
  simp [emittedBy, List.filterMap_map]

theorem emittedBy_other {receiver other : ν} (h : other ≠ receiver) (outputs : List ο) :
    emittedBy receiver (outputs.map fun output => (other, output)) = [] := by
  simp [emittedBy, h]

theorem sentTo_cons (receiver : ν) (step : BusStep ν κ μ) (steps : List (BusStep ν κ μ)) :
    sentTo receiver (step :: steps) = sentTo receiver [step] ++ sentTo receiver steps :=
  List.filterMap_append (l := [step])

theorem inbox_put (b : Bus ν σ μ) (sender : ν) (message : μ) (receiver : ν) :
    (b.put sender message).inbox receiver =
      b.inbox receiver ++ sentTo receiver ([.send sender message] : List (BusStep ν κ μ)) := by
  unfold Bus.put sentTo
  by_cases h : receiver = sender <;> simp [h]

/-- What a step does to one of the nodes: it handles no message or its first one. -/
theorem bus_step (M : Machine σ (κ × μ) ο) (b : Bus ν σ μ) (step : BusStep ν κ μ) (receiver : ν) :
    ∃ handled : List (κ × μ),
      b.inbox receiver ++ sentTo receiver [step] =
          handled.map Prod.snd ++ ((bus M).step b step).1.inbox receiver ∧
        ((bus M).step b step).1.node receiver = (M.run (b.node receiver) handled).1 ∧
        emittedBy receiver ((bus M).step b step).2 = (M.run (b.node receiver) handled).2 := by
  cases step with
  | send sender message => exact ⟨[], (inbox_put b sender message receiver).symm, rfl, rfl⟩
  | handle other context =>
      have hsent : sentTo receiver ([.handle other context] : List (BusStep ν κ μ)) = [] := rfl
      have hstep : (bus M).step b (.handle other context) = b.take M other context := rfl
      rw [hsent, List.append_nil, hstep]
      unfold Bus.take
      split
      next => exact ⟨[], rfl, rfl, rfl⟩
      next message rest hinbox =>
        dsimp only
        by_cases hsame : receiver = other
        · subst hsame
          refine ⟨[(context, message)], ?_, ?_, ?_⟩
          · rw [hinbox, Function.update_self]
            rfl
          · rw [Function.update_self]
            rfl
          · rw [emittedBy_self, Machine.run_cons, Machine.run_nil, List.append_nil]
        · refine ⟨[], ?_, ?_, ?_⟩
          · rw [Function.update_of_ne hsame]
            rfl
          · rw [Function.update_of_ne hsame]
            rfl
          · exact emittedBy_other (Ne.symm hsame) _

/-- Every message of the others is handled once, in the order of sending, or it is still in the
queue, behind all that are handled. -/
theorem bus_delivers (M : Machine σ (κ × μ) ο) (b : Bus ν σ μ) (steps : List (BusStep ν κ μ))
    (receiver : ν) :
    ∃ handled : List (κ × μ),
      b.inbox receiver ++ sentTo receiver steps =
          handled.map Prod.snd ++ ((bus M).run b steps).1.inbox receiver ∧
        ((bus M).run b steps).1.node receiver = (M.run (b.node receiver) handled).1 ∧
        emittedBy receiver ((bus M).run b steps).2 = (M.run (b.node receiver) handled).2 := by
  induction steps generalizing b with
  | nil => exact ⟨[], by simp [sentTo], rfl, rfl⟩
  | cons step steps ih =>
      obtain ⟨now, hnow, hnode, hout⟩ := bus_step M b step receiver
      obtain ⟨later, hlater, hnode', hout'⟩ := ih ((bus M).step b step).1
      refine ⟨now ++ later, ?_, ?_, ?_⟩
      · rw [sentTo_cons, ← List.append_assoc, hnow, List.append_assoc, hlater, List.map_append,
          List.append_assoc, Machine.run_cons]
      · rw [Machine.run_cons, hnode', hnode, Machine.run_append]
      · rw [Machine.run_cons, emittedBy_append, hout, hout', hnode, Machine.run_append]

end Bldc.Foundation
