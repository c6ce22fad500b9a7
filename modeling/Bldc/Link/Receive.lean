import Bldc.Foundation.Machine
import Bldc.Foundation.Ring
import Bldc.Flash.Memory

/-!
# The receive rings

CAN frames, UART bytes and USB bytes reach the thread that processes them through a
ring. The producer stores, advances its index and wraps it; the consumer compares the
indices, takes, advances and wraps. There is no test for a full ring, and nothing but
the two indices is shared.
-/

namespace Bldc.Link

open Foundation

/-- What the producer does next. -/
inductive ProducerPc where
  | store
  | advance
  | wrap
  deriving DecidableEq, Repr

/-- What the consumer does next. -/
inductive ConsumerPc where
  | compare
  | take
  | advance
  | wrap
  deriving DecidableEq, Repr

/-- A ring with its two parties, and all that was stored in it and taken from it. -/
structure Ring (α : Type) where
  slots : Nat → α
  write : Nat
  read : Nat
  producer : ProducerPc
  consumer : ConsumerPc
  produced : List α
  consumed : List α

/-- One of the parties makes its next step. The item is what the producer has received. -/
inductive RingStep (α : Type) where
  | produce (item : α)
  | consume

namespace Ring

variable {α : Type} (size : Nat) (s : Ring α)

/-- The start: nothing is stored, and the slots hold what they hold. -/
def init (slots : Nat → α) : Ring α where
  slots := slots
  write := 0
  read := 0
  producer := .store
  consumer := .compare
  produced := []
  consumed := []

/-- The producer stores an item where its index points. -/
def store (item : α) : Ring α :=
  { s with
    slots := Function.update s.slots s.write item
    produced := s.produced ++ [item]
    producer := .advance }

def advanceWrite : Ring α := { s with write := s.write + 1, producer := .wrap }

def wrapWrite : Ring α :=
  { s with write := if s.write = size then 0 else s.write, producer := .store }

/-- The consumer goes on if the indices differ. -/
def compare : Ring α := if s.read ≠ s.write then { s with consumer := .take } else s

def take : Ring α := { s with consumed := s.consumed ++ [s.slots s.read], consumer := .advance }

def advanceRead : Ring α := { s with read := s.read + 1, consumer := .wrap }

def wrapRead : Ring α :=
  { s with read := if s.read = size then 0 else s.read, consumer := .compare }

/-- `cancom_read_thread`, `rxchar` and `serial_read_thread`. -/
def produce (item : α) : Ring α :=
  match s.producer with
  | .store => s.store item
  | .advance => s.advanceWrite
  | .wrap => s.wrapWrite size

/-- `cancom_process_thread`, `packet_process_thread` and `serial_process_thread`. All
three wrap the index only when the item has been processed. -/
def consume : Ring α :=
  match s.consumer with
  | .compare => s.compare
  | .take => s.take
  | .advance => s.advanceRead
  | .wrap => s.wrapRead size

def step : RingStep α → Ring α
  | .produce item => s.produce size item
  | .consume => s.consume size

/-- The items that the write index has passed. -/
def published : Nat :=
  if s.producer = .advance then s.produced.length - 1 else s.produced.length

/-- The items that are stored and not taken. -/
def backlog : Nat := s.produced.length - s.consumed.length

/-- The consumer finds nothing to take. -/
def Stops : Prop := s.consumer = .compare ∧ s.read = s.write

/-- The consumer does not compare its index 0 with a write index that is not wrapped
yet, and does not take from the slot that is being written. -/
def Settled : RingStep α → Prop
  | .produce _ => True
  | .consume =>
      (s.consumer = .compare → ¬(s.write = size ∧ s.read = 0)) ∧
        (s.consumer = .take → ¬(s.producer = .advance ∧ s.write = s.read))

instance (step : RingStep α) : Decidable (s.Settled size step) :=
  match step with
  | .produce _ => isTrue trivial
  | .consume => inferInstanceAs (Decidable (_ ∧ _))

/-- The consumer moves only while the producer is between two items. -/
def Undivided : RingStep α → Prop
  | .produce _ => True
  | .consume => s.producer = .store

end Ring

/-- A ring of some size with its two parties. -/
def ring (α : Type) (size : Nat) : Machine (Ring α) (RingStep α) Empty where
  step s step := (s.step size step, [])

namespace Ring

variable {α : Type} {size : Nat} {s : Ring α} {next : Nat}

/-! ## The indices and the items -/

/-- The indices count the items round and round, the consumer comes to the item `next`
or to a later one in its slot, and what it has taken comes from before. -/
structure Tracks (size : Nat) (s : Ring α) (next : Nat) : Prop where
  holds : HoldsLast size s.produced s.slots
  stored : s.producer = .advance → 0 < s.produced.length
  write : s.producer ≠ .wrap → s.write = s.published % size
  unwrapped : s.producer = .wrap → 0 < s.published ∧ s.write = (s.published - 1) % size + 1
  read : s.consumer = .compare ∨ s.consumer = .take → s.read = next % size
  taken : s.consumer = .advance → 0 < next ∧ s.read = (next - 1) % size
  advanced : s.consumer = .wrap → 0 < next ∧ s.read = (next - 1) % size + 1
  next_le : next ≤ s.published
  next_lt : s.consumer = .take → next < s.published
  consumed : s.consumed.Sublist (s.produced.take next)

theorem tracks_init (slots : Nat → α) : Tracks size (init slots) 0 where
  holds := holdsLast_nil slots
  stored := nofun
  write := fun _ => (Nat.zero_mod size).symm
  unwrapped := nofun
  read := fun _ => (Nat.zero_mod size).symm
  taken := nofun
  advanced := nofun
  next_le := Nat.le_refl 0
  next_lt := nofun
  consumed := List.Sublist.refl _

theorem published_le : s.published ≤ s.produced.length := by
  unfold published
  split <;> omega

theorem published_store (hpc : s.producer = .store) (item : α) :
    (s.store item).published = s.published := by
  simp [published, store, hpc]

theorem published_advanceWrite (hpc : s.producer = .advance) (hstored : 0 < s.produced.length) :
    s.advanceWrite.published = s.published + 1 := by
  simp only [published, advanceWrite, hpc, if_true, reduceCtorEq, if_false]
  omega

theorem published_wrapWrite (size : Nat) (hpc : s.producer = .wrap) :
    (s.wrapWrite size).published = s.published := by
  simp [published, wrapWrite, hpc]

theorem tracks_store (h : Tracks size s next) (hpc : s.producer = .store) (item : α) :
    Tracks size (s.store item) next := by
  have hlength : s.published = s.produced.length := if_neg (by rw [hpc]; decide)
  have hwrite := h.write (by rw [hpc]; decide)
  have hpublished := published_store hpc item
  refine
    { holds := ?_
      stored := fun _ => by simp [store]
      write := fun _ => by rw [hpublished]; exact hwrite
      unwrapped := nofun
      read := h.read
      taken := h.taken
      advanced := h.advanced
      next_le := hpublished ▸ h.next_le
      next_lt := fun htake => hpublished ▸ h.next_lt htake
      consumed := ?_ }
  · have hpush := h.holds.push item
    rwa [← hlength, ← hwrite] at hpush
  · change s.consumed.Sublist ((s.produced ++ [item]).take next)
    rw [List.take_append_of_le_length (h.next_le.trans published_le)]
    exact h.consumed

theorem tracks_advanceWrite (h : Tracks size s next) (hpc : s.producer = .advance) :
    Tracks size s.advanceWrite next := by
  have hwrite := h.write (by rw [hpc]; decide)
  have hpublished := published_advanceWrite hpc (h.stored hpc)
  exact
    { holds := h.holds
      stored := nofun
      write := fun hne => absurd rfl hne
      unwrapped := fun _ => by
        rw [hpublished]
        exact ⟨Nat.succ_pos _, congrArg (· + 1) hwrite⟩
      read := h.read
      taken := h.taken
      advanced := h.advanced
      next_le := by
        rw [hpublished]
        exact h.next_le.trans (Nat.le_succ _)
      next_lt := fun htake => by
        rw [hpublished]
        exact (h.next_lt htake).trans (Nat.lt_succ_self _)
      consumed := h.consumed }

theorem tracks_wrapWrite (hsize : 0 < size) (h : Tracks size s next) (hpc : s.producer = .wrap) :
    Tracks size (s.wrapWrite size) next := by
  obtain ⟨hpos, hwrite⟩ := h.unwrapped hpc
  have hpublished := published_wrapWrite size hpc
  have hwrap := wrap_mod hsize (s.published - 1)
  rw [Nat.sub_add_cancel hpos, ← hwrite] at hwrap
  exact
    { holds := h.holds
      stored := nofun
      write := fun _ => by rw [hpublished]; exact hwrap
      unwrapped := nofun
      read := h.read
      taken := h.taken
      advanced := h.advanced
      next_le := hpublished ▸ h.next_le
      next_lt := fun htake => hpublished ▸ h.next_lt htake
      consumed := h.consumed }

theorem tracks_produce (hsize : 0 < size) (h : Tracks size s next) (item : α) :
    Tracks size (s.produce size item) next := by
  unfold produce
  split
  next hpc => exact tracks_store h hpc item
  next hpc => exact tracks_advanceWrite h hpc
  next hpc => exact tracks_wrapWrite hsize h hpc

/-- When the indices are seen to differ, there is an item to come to. -/
theorem next_lt_of_ne (hsize : 0 < size) (h : Tracks size s next) (hpc : s.consumer = .compare)
    (hsettled : ¬(s.write = size ∧ s.read = 0)) (hne : s.read ≠ s.write) :
    next < s.published := by
  refine lt_of_le_of_ne h.next_le ?_
  rintro rfl
  have hread := h.read (.inl hpc)
  by_cases hwraps : s.producer = .wrap
  · obtain ⟨hpos, hwrite⟩ := h.unwrapped hwraps
    have hwrap := wrap_mod hsize (s.published - 1)
    rw [Nat.sub_add_cancel hpos, ← hwrite, ← hread] at hwrap
    split at hwrap
    next hfull => exact hsettled ⟨hfull, hwrap.symm⟩
    next => exact hne hwrap.symm
  · exact hne (hread.trans (h.write hwraps).symm)

theorem tracks_compare (hsize : 0 < size) (h : Tracks size s next) (hpc : s.consumer = .compare)
    (hsettled : ¬(s.write = size ∧ s.read = 0)) : Tracks size s.compare next := by
  unfold compare
  split
  next hne =>
    have hlt := next_lt_of_ne hsize h hpc hsettled hne
    exact
      { h with
        read := fun _ => h.read (.inl hpc)
        taken := nofun
        advanced := nofun
        next_lt := fun _ => hlt }
  next => exact h

/-- The consumer takes the last item in the slot of the one that it comes to. -/
theorem slots_read (hsize : 0 < size) (h : Tracks size s next) (hpc : s.consumer = .take)
    (hsettled : ¬(s.producer = .advance ∧ s.write = s.read)) :
    s.produced[lastInSlot size next s.published]? = some (s.slots s.read) := by
  have hlt := lastInSlot_lt size (h.next_lt hpc)
  have hlast := lt_lastInSlot_add hsize next s.published
  have hmod := lastInSlot_mod size next s.published
  have hread := h.read (.inr hpc)
  rw [← hread] at hmod
  rw [← hmod]
  apply h.holds _ (hlt.trans_le published_le)
  by_cases hstored : s.producer = .advance
  · -- the slot that is being written is another one
    have hwrite := h.write (by rw [hstored]; decide)
    have hpublished : s.published = s.produced.length - 1 := if_pos hstored
    have hne : lastInSlot size next s.published + size ≠ s.published := by
      intro heq
      apply hsettled ⟨hstored, ?_⟩
      rw [hwrite, ← heq, Nat.add_mod_right, hmod]
    have hpos := h.stored hstored
    omega
  · have hpublished : s.published = s.produced.length := if_neg hstored
    omega

theorem tracks_take (hsize : 0 < size) (h : Tracks size s next) (hpc : s.consumer = .take)
    (hsettled : ¬(s.producer = .advance ∧ s.write = s.read)) :
    Tracks size s.take (lastInSlot size next s.published + 1) := by
  have htaken := sublist_take_snoc h.consumed (le_lastInSlot next s.published)
    (slots_read hsize h hpc hsettled)
  exact
    { h with
      read := by
        rintro (h | h) <;> cases h
      taken := by
        intro _
        refine ⟨Nat.succ_pos _, ?_⟩
        rw [Nat.add_sub_cancel, lastInSlot_mod]
        exact h.read (.inr hpc)
      advanced := nofun
      next_le := lastInSlot_lt size (h.next_lt hpc)
      next_lt := nofun
      consumed := htaken }

theorem tracks_advanceRead (h : Tracks size s next) (hpc : s.consumer = .advance) :
    Tracks size s.advanceRead next :=
  { h with
    read := by
      rintro (h | h) <;> cases h
    taken := nofun
    advanced := fun _ => ⟨(h.taken hpc).1, congrArg (· + 1) (h.taken hpc).2⟩
    next_lt := nofun }

theorem tracks_wrapRead (hsize : 0 < size) (h : Tracks size s next) (hpc : s.consumer = .wrap) :
    Tracks size (s.wrapRead size) next := by
  obtain ⟨hpos, hread⟩ := h.advanced hpc
  have hwrap := wrap_mod hsize (next - 1)
  rw [Nat.sub_add_cancel hpos, ← hread] at hwrap
  exact
    { h with
      read := fun _ => hwrap
      taken := nofun
      advanced := nofun
      next_lt := nofun }

theorem tracks_step (hsize : 0 < size) (h : Tracks size s next) {step : RingStep α}
    (hsettled : s.Settled size step) : ∃ next', Tracks size (s.step size step) next' := by
  cases step with
  | produce item => exact ⟨next, tracks_produce hsize h item⟩
  | consume =>
      change ∃ next', Tracks size (s.consume size) next'
      unfold consume
      split
      next hpc => exact ⟨next, tracks_compare hsize h hpc (hsettled.1 hpc)⟩
      next hpc => exact ⟨_, tracks_take hsize h hpc (hsettled.2 hpc)⟩
      next hpc => exact ⟨next, tracks_advanceRead h hpc⟩
      next hpc => exact ⟨next, tracks_wrapRead hsize h hpc⟩

/-! ## Without an overrun -/

/-- The consumer has taken the first items and comes to the next one. -/
structure Complete (size : Nat) (s : Ring α) : Prop where
  tracks : Tracks size s s.consumed.length
  consumed : s.consumed = s.produced.take s.consumed.length

theorem complete_take (hsize : 0 < size) (h : Complete size s) (hpc : s.consumer = .take)
    (hsettled : ¬(s.producer = .advance ∧ s.write = s.read)) (hbacklog : s.backlog < size) :
    Complete size s.take := by
  have hlt := h.tracks.next_lt hpc
  have hround : s.published ≤ s.consumed.length + size := by
    have hle := published_le (s := s)
    unfold backlog at hbacklog
    omega
  have hnext := lastInSlot_eq hlt hround
  have hitem := slots_read hsize h.tracks hpc hsettled
  have htracks := tracks_take hsize h.tracks hpc hsettled
  rw [hnext] at hitem htracks
  refine ⟨?_, take_snoc h.consumed hitem⟩
  have hlength : s.take.consumed.length = s.consumed.length + 1 := List.length_append
  rwa [hlength]

theorem complete_step (hsize : 0 < size) (h : Complete size s) {step : RingStep α}
    (hsettled : s.Settled size step) (hbacklog : s.backlog < size) :
    Complete size (s.step size step) := by
  cases step with
  | produce item =>
      have hsame : (s.produce size item).consumed = s.consumed := by
        unfold produce
        split <;> rfl
      have htracks := tracks_produce hsize h.tracks item
      change Complete size (s.produce size item)
      constructor
      · rwa [hsame]
      · rw [hsame]
        unfold produce
        split
        · exact h.consumed.trans (List.take_append_of_le_length
            (h.tracks.next_le.trans published_le)).symm
        · exact h.consumed
        · exact h.consumed
  | consume =>
      change Complete size (s.consume size)
      unfold consume
      split
      next hpc =>
        have htracks := tracks_compare hsize h.tracks hpc (hsettled.1 hpc)
        unfold compare at htracks ⊢
        split at htracks
        next hne =>
          rw [if_pos hne]
          exact ⟨htracks, h.consumed⟩
        next heq =>
          rw [if_neg heq]
          exact h
      next hpc => exact complete_take hsize h hpc (hsettled.2 hpc) hbacklog
      next hpc => exact ⟨tracks_advanceRead h.tracks hpc, h.consumed⟩
      next hpc => exact ⟨tracks_wrapRead hsize h.tracks hpc, h.consumed⟩

/-- A consumer that finds nothing to take has taken everything. -/
theorem Complete.of_stops (hsize : 0 < size) (h : Complete size s) (hstops : s.Stops)
    (hbacklog : s.backlog < size) : s.consumed = s.produced.take s.published := by
  have hread := h.tracks.read (.inl hstops.1)
  have hmod : s.consumed.length % size = s.published % size := by
    by_cases hwraps : s.producer = .wrap
    · obtain ⟨hpos, hwrite⟩ := h.tracks.unwrapped hwraps
      have hwrap := wrap_mod hsize (s.published - 1)
      have hlt := Nat.mod_lt s.consumed.length hsize
      rw [Nat.sub_add_cancel hpos, ← hwrite, ← hstops.2, hread, if_neg hlt.ne] at hwrap
      exact hwrap
    · rw [← hread, hstops.2, h.tracks.write hwraps]
  have hle := h.tracks.next_le
  have hdvd := Nat.dvd_of_mod_eq_zero (Nat.sub_mod_eq_zero_of_mod_eq hmod.symm)
  have hclose : s.published - s.consumed.length < size := by
    have hpublished := published_le (s := s)
    unfold backlog at hbacklog
    omega
  have hzero := Nat.eq_zero_of_dvd_of_lt hdvd hclose
  have hall : s.consumed.length = s.published := by omega
  exact hall ▸ h.consumed

end Ring

/-! ## Runs -/

/-- What the consumer has taken is a part of what was produced, in the same order.
Without an overrun it is the beginning, and the consumer stops only when it has taken
everything. -/
structure Receives {α : Type} (size : Nat) (slots : Nat → α) (steps : List (RingStep α)) :
    Prop where
  inOrder : ((ring α size).run (.init slots) steps).1.consumed.Sublist
    ((ring α size).run (.init slots) steps).1.produced
  complete : (∀ before after, steps = before ++ after →
      ((ring α size).run (.init slots) before).1.backlog < size) →
    ((ring α size).run (.init slots) steps).1.consumed <+:
        ((ring α size).run (.init slots) steps).1.produced ∧
      (((ring α size).run (.init slots) steps).1.Stops →
        ((ring α size).run (.init slots) steps).1.consumed =
          ((ring α size).run (.init slots) steps).1.produced.take
            ((ring α size).run (.init slots) steps).1.published)

/-- The receivers. -/
inductive Receiver where
  | can
  | uart
  | usb
  deriving DecidableEq, Repr

/-- `RX_FRAMES_SIZE`, and `SERIAL_RX_BUFFER_SIZE` of the UART and of the USB. -/
def Receiver.size : Receiver → Nat
  | can => 100
  | uart => 1024
  | usb => 2048

theorem Receiver.size_pos (receiver : Receiver) : 0 < receiver.size := by
  cases receiver <;> decide

section Runs

variable {α : Type} {size : Nat}

theorem complete_run (hsize : 0 < size) (slots : Nat → α) {steps : List (RingStep α)}
    (hall : (ring α size).Always (Ring.Settled size) (.init slots) steps)
    (hbacklog : ∀ before after, steps = before ++ after →
      ((ring α size).run (.init slots) before).1.backlog < size) :
    ((ring α size).run (.init slots) steps).1.Complete size := by
  have hfew := Machine.always_of_forall_prefix (M := ring α size)
    (I := fun s : Ring α => s.backlog < size) hbacklog
  exact Machine.run_invariant_of_always (M := ring α size) (I := Ring.Complete size)
    (fun _ _ h hstep => Ring.complete_step hsize h hstep.1 hstep.2)
    ⟨Ring.tracks_init slots, rfl⟩ (hall.and hfew)

theorem receives_of_settled (hsize : 0 < size) (slots : Nat → α) {steps : List (RingStep α)}
    (hall : (ring α size).Always (Ring.Settled size) (.init slots) steps) :
    Receives size slots steps where
  inOrder := by
    obtain ⟨next, htracks⟩ := Machine.run_invariant_of_always (M := ring α size)
      (I := fun s => ∃ next, Ring.Tracks size s next)
      (fun _ _ ⟨_, h⟩ hstep => Ring.tracks_step hsize h hstep) ⟨0, Ring.tracks_init slots⟩ hall
    exact htracks.consumed.trans (List.take_sublist _ _)
  complete := by
    intro hbacklog
    have hcomplete := complete_run hsize slots hall hbacklog
    refine ⟨?_, fun hstops => ?_⟩
    · rw [hcomplete.consumed]
      exact List.take_prefix _ _
    · exact hcomplete.of_stops hsize hstops (hbacklog steps [] (List.append_nil _).symm)

/-- The write index leaves the ring only until it is wrapped. -/
structure InRing (size : Nat) (s : Ring α) : Prop where
  inside : s.producer ≠ .wrap → s.write < size
  atEnd : s.producer = .wrap → s.write ≤ size

theorem inRing_step (hsize : 0 < size) {s : Ring α} (h : InRing size s) (step : RingStep α) :
    InRing size (s.step size step) := by
  cases step with
  | produce item =>
      change InRing size (s.produce size item)
      unfold Ring.produce
      split
      next hpc => exact ⟨fun _ => h.inside (by rw [hpc]; decide), nofun⟩
      next hpc => exact ⟨fun hne => absurd rfl hne, fun _ => h.inside (by rw [hpc]; decide)⟩
      next hpc =>
        have hle := h.atEnd hpc
        refine ⟨fun _ => ?_, nofun⟩
        unfold Ring.wrapWrite
        dsimp only
        split <;> omega
  | consume =>
      have hsame : (s.consume size).producer = s.producer ∧ (s.consume size).write = s.write := by
        unfold Ring.consume Ring.compare
        repeat' split
        all_goals exact ⟨rfl, rfl⟩
      exact ⟨fun hne => hsame.2 ▸ h.inside (hsame.1 ▸ hne),
        fun heq => hsame.2 ▸ h.atEnd (hsame.1 ▸ heq)⟩

/-- A producer that the consumer does not interrupt, as it cannot interrupt the CAN
thread or the UART interrupt, leaves a settled ring to it. -/
theorem settled_of_undivided (hsize : 0 < size) (slots : Nat → α) {steps : List (RingStep α)}
    (hall : (ring α size).Always Ring.Undivided (.init slots) steps) :
    (ring α size).Always (Ring.Settled size) (.init slots) steps := by
  apply Machine.Always.imp_of_invariant (M := ring α size) (I := InRing size)
    (fun _ step h _ => inRing_step hsize h step) ?_ ⟨fun _ => hsize, fun _ => Nat.zero_le size⟩ hall
  intro s step h hundivided
  cases step with
  | produce item => trivial
  | consume =>
      have hpc : s.producer = .store := hundivided
      refine ⟨fun _ hfull => ?_, fun _ hstoring => ?_⟩
      · exact (h.inside (by rw [hpc]; decide)).ne hfull.1
      · rw [hpc] at hstoring
        exact nomatch hstoring.1

end Runs

/-- Every ring delivers in order, and all of it without an overrun, in the runs in which
the consumer finds it settled. -/
theorem receiver_receives {α : Type} (receiver : Receiver) (slots : Nat → α)
    (steps : List (RingStep α))
    (hall : (ring α receiver.size).Always (Ring.Settled receiver.size) (.init slots) steps) :
    Receives receiver.size slots steps :=
  receives_of_settled receiver.size_pos slots hall

/-- A byte is stored, and the consumer takes it. -/
theorem receiver_receives_byte :
    Receives Receiver.usb.size (fun _ => (0 : Flash.Byte))
      [.produce 7, .produce 0, .produce 0, .consume, .consume, .consume, .consume, .consume] :=
  receiver_receives .usb _ _ ⟨trivial, trivial, trivial, by decide, by decide, by decide,
    by decide, by decide, trivial⟩

/-! ## A write index that is not wrapped -/

/-- A byte is produced and consumed. -/
def oneByte : List (RingStep Flash.Byte) :=
  [.produce 0, .produce 0, .produce 0, .consume, .consume, .consume, .consume]

/-- The ring after some bytes that were consumed at once. -/
inductive Level (n : Nat) : Ring Flash.Byte → Prop where
  | intro (slots : Nat → Flash.Byte) (produced consumed : List Flash.Byte)
      (hproduced : produced.length = n) (hconsumed : consumed.length = n) :
      Level n ⟨slots, n, n, .store, .compare, produced, consumed⟩

theorem level_oneByte {size n : Nat} {s : Ring Flash.Byte} (h : Level n s) (hn : n + 1 < size) :
    Level (n + 1) ((ring Flash.Byte size).run s oneByte).1 := by
  obtain ⟨slots, produced, consumed, hproduced, hconsumed⟩ := h
  have hne : ¬n + 1 = size := hn.ne
  simp only [oneByte, Machine.run, ring, Ring.step, Ring.produce, Ring.consume, Ring.store,
    Ring.advanceWrite, Ring.wrapWrite, Ring.compare, Ring.take, Ring.advanceRead, Ring.wrapRead,
    if_neg hne, ne_eq, Nat.left_eq_add, Nat.one_ne_zero, not_false_iff, if_true]
  exact .intro _ _ _ (by simp [hproduced]) (by simp [hconsumed])

theorem level_replicate (size n : Nat) (hn : n < size) :
    Level n
      ((ring Flash.Byte size).run (.init fun _ => 0) (List.replicate n oneByte).flatten).1 := by
  induction n with
  | zero => exact .intro _ [] [] rfl rfl
  | succ n ih =>
      rw [List.replicate_succ', List.flatten_concat, Machine.run_append]
      dsimp only
      exact level_oneByte (ih (by omega)) hn

/-- The last byte before the end of the ring is stored, the index is advanced, and the
consumer takes the byte and looks again. -/
def atTheEnd : List (RingStep Flash.Byte) :=
  [.produce 0, .produce 0, .consume, .consume, .consume, .consume, .consume, .consume]

theorem length_atTheEnd {n : Nat} {s : Ring Flash.Byte} (h : Level n s) :
    ((ring Flash.Byte (n + 1)).run s atTheEnd).1.produced.length = n + 1 ∧
      ((ring Flash.Byte (n + 1)).run s atTheEnd).1.consumed.length = n + 2 := by
  obtain ⟨slots, produced, consumed, hproduced, hconsumed⟩ := h
  simp [atTheEnd, Machine.run, ring, Ring.step, Ring.produce, Ring.consume, Ring.store,
    Ring.advanceWrite, Ring.compare, Ring.take, Ring.advanceRead, Ring.wrapRead, hproduced,
    hconsumed]

/-- The consumer of the USB ring that finds the write index at 2048 takes a byte that it
has already taken. -/
theorem not_receives_usb :
    ¬Receives Receiver.usb.size (fun _ => (0 : Flash.Byte))
      ((List.replicate 2047 oneByte).flatten ++ atTheEnd) := by
  intro h
  have hlevel := level_replicate Receiver.usb.size 2047 (by decide)
  have hlength := length_atTheEnd hlevel
  have hle := h.inOrder.length_le
  rw [Machine.run_append] at hle
  exact absurd (hlength.2.symm.le.trans (hle.trans hlength.1.le)) (by decide)

end Bldc.Link
