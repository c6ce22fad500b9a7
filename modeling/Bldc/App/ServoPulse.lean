import Bldc.App.ServoTables
import Mathlib.Tactic.Ring

/-!
# A pulse of the servo outputs

The interrupts run over the tables of a plan and clear what it says at the times it says. With
what the thread has written every servo gets one pulse of the length of its position.
-/

namespace Bldc.App

open Flash Foundation

variable {π : Type}

/-! ## Indices -/

theorem toInt_ofNat {n : Nat} (hn : n < 128) : (BitVec.ofNat 8 n).toInt = n := by
  rw [BitVec.toInt_ofNat', Int.bmod_eq_of_le (by omega) (by omega)]

theorem tableIndex_ofNat {n : Nat} (hn : n < 128) : tableIndex (BitVec.ofNat 8 n) = some n := by
  rw [tableIndex, toInt_ofNat hn, if_pos (Int.natCast_nonneg n), Int.toNat_natCast]

theorem ofNat_ne_zero {n : Nat} (hpos : 0 < n) (hn : n < 128) : BitVec.ofNat 8 n ≠ 0 := by
  intro heq
  have hint := toInt_ofNat hn
  rw [heq] at hint
  have hzero : (0 : Byte).toInt = 0 := rfl
  omega

theorem ofNat_succ_sub_one (n : Nat) : BitVec.ofNat 8 (n + 1) - 1 = BitVec.ofNat 8 n := by
  rw [BitVec.ofNat_add]
  exact BitVec.add_sub_cancel _ _

theorem readAt_begins {α : Type} {items table : List α} {n : Nat} {x : α} (h : items <+: table)
    (hitem : items[n]? = some x) (hn : n < 128) : readAt table (BitVec.ofNat 8 n) = some x := by
  rw [readAt, tableIndex_ofNat hn, Option.bind_some]
  obtain ⟨rest, rfl⟩ := h
  obtain ⟨hlt, -⟩ := List.getElem?_eq_some_iff.1 hitem
  rwa [List.getElem?_append_left hlt]

/-! ## The times -/

theorem delayOf_toNat {pos : Int} (hlow : 0 ≤ pos) (hhigh : pos ≤ 255) :
    ((delayOf pos).toNat : Int) = pos * servoCpuFactor := by
  have hfactor : servoCpuFactor = 4 := rfl
  rw [delayOf, hfactor, BitVec.toNat_ofInt]
  omega

/-- When a position ends its pulses. -/
def pulseTime (pos : Int) : Int := servoStartOffset + pos * servoCpuFactor

/-- The first reload value is the length of the first pulse. -/
theorem startDelay_toNat {pos : Int} (hlow : 0 ≤ pos) (hhigh : pos ≤ 255) :
    ((BitVec.ofInt 32 servoStartOffset + delayOf pos).toNat : Int) = pulseTime pos := by
  have hdelay := delayOf_toNat hlow hhigh
  have hfactor : servoCpuFactor = 4 := rfl
  have hoffset : servoStartOffset = 1000 := rfl
  have hstart : (BitVec.ofInt 32 servoStartOffset).toNat = 1000 := rfl
  rw [hfactor] at hdelay
  rw [BitVec.toNat_add, hstart, pulseTime, hfactor, hoffset]
  omega

theorem delaysFrom_getElem? (prev : Int) (front : List Int) (pos next : Int) (back : List Int) :
    (delaysFrom prev (front ++ pos :: next :: back))[front.length + 1]? =
      some (delayOf (next - pos)) := by
  induction front generalizing prev with
  | nil => rfl
  | cons first front ih => exact ih first

/-- What an entry writes. -/
def Entry.written (time : Int) (e : Entry π) : Int × PadWrite π :=
  (time, .clearPort e.port (e.mask.setWidth 16))

/-- What some groups write. -/
def writesOf (groups : List (Group π)) : List (Int × PadWrite π) :=
  (clearings groups).map fun clearing => clearing.2.written (pulseTime clearing.1)

/-! ## A group -/

/-- What the loop of a group changes. -/
def ServoDriver.advance (s : ServoDriver π) (samePos : List Byte) (bits index : Byte)
    (writes : List (Int × PadWrite π)) : ServoDriver π :=
  { s with
    samePos := samePos, servoIntIndex := bits, masksPortsIndex := index, log := s.log ++ writes }

theorem advance_advance (s : ServoDriver π) (samePos samePos' : List Byte)
    (bits bits' index index' : Byte) (writes writes' : List (Int × PadWrite π)) :
    (s.advance samePos bits index writes).advance samePos' bits' index' writes' =
      s.advance samePos' bits' index' (writes ++ writes') := by
  unfold ServoDriver.advance
  rw [List.append_assoc]

theorem EntryTables.read {front back : List (Entry π)} {e : Entry π} {s : ServoDriver π}
    (h : EntryTables (front ++ e :: back) s) (hsmall : front.length < 128) :
    readAt s.ports (BitVec.ofNat 8 front.length) = some e.port ∧
      readAt s.masks (BitVec.ofNat 8 front.length) = some e.mask ∧
      readAt s.sameBits (BitVec.ofNat 8 front.length) = some e.count := by
  have hitem {α : Type} (f : Entry π → α) :
      ((front ++ e :: back).map f)[front.length]? = some (f e) := by
    rw [List.getElem?_map, getElem?_length_append, Option.map_some]
  exact ⟨readAt_begins h.ports (hitem _) hsmall, readAt_begins h.masks (hitem _) hsmall,
    readAt_begins h.sameBits.begins (hitem _) hsmall⟩

/-- The decrement of the condition. -/
theorem countDown_eq {s : ServoDriver π} {used rest : List Byte} {left : Byte}
    (hindex : tableIndex s.intIndex = some used.length)
    (hsame : s.samePos = used ++ left :: rest) :
    countDown s = some { s with samePos := used ++ (left - 1) :: rest } := by
  unfold countDown
  rw [hindex, hsame]
  simp only [Option.bind_eq_bind, Option.bind_some, modifyAt_append]

theorem pulsesLeft_iff {s : ServoDriver π} {used rest : List Byte} {left : Byte}
    (hindex : tableIndex s.intIndex = some used.length)
    (hsame : s.samePos = used ++ left :: rest) : PulsesLeft s ↔ left ≠ 0 := by
  rw [PulsesLeft, readAt, hindex, Option.bind_some, hsame, getElem?_length_append]
  exact not_congr Option.some_inj

/-- A round of the loop clears one entry. -/
theorem clearRound_eq {front back : List (Entry π)} {e : Entry π} {used rest : List Byte}
    {left : Byte} {s : ServoDriver π} (hentries : EntryTables (front ++ e :: back) s)
    (hsmall : front.length < 128) (hindex : tableIndex s.intIndex = some used.length)
    (hmasks : s.masksPortsIndex = BitVec.ofNat 8 front.length)
    (hsame : s.samePos = used ++ left :: rest) :
    clearRound s = some (s.advance (used ++ (left - 1) :: rest) (s.servoIntIndex + e.count)
      (BitVec.ofNat 8 (front.length + 1)) [e.written s.elapsed]) := by
  obtain ⟨hport, hmask, hcount⟩ := hentries.read hsmall
  unfold clearRound
  rw [countDown_eq hindex hsame]
  simp only [Option.bind_eq_bind, Option.bind_some, hmasks, hport, hmask, hcount]
  rw [BitVec.ofNat_add, ← hmasks]
  rfl

/-- A loop over the entries of a group clears them one after another. -/
theorem returns_clearRounds {back left : List (Entry π)} {used rest : List Byte}
    {front : List (Entry π)} {s : ServoDriver π}
    (hentries : EntryTables (front ++ left ++ back) s)
    (hsmall : (front ++ left).length < 128)
    (hindex : tableIndex s.intIndex = some used.length)
    (hmasks : s.masksPortsIndex = BitVec.ofNat 8 front.length)
    (hsame : s.samePos = used ++ BitVec.ofNat 8 left.length :: rest) :
    ∃ bits, Returns (fun fuel => whileLoop PulsesLeft clearRound fuel s)
      (s.advance (used ++ 0 :: rest) bits (BitVec.ofNat 8 (front ++ left).length)
        (left.map (Entry.written s.elapsed))) := by
  induction left generalizing front s with
  | nil =>
      refine ⟨s.servoIntIndex, ?_⟩
      have hnone : ¬PulsesLeft s := by
        rw [pulsesLeft_iff hindex hsame]
        exact fun hne => hne rfl
      have hzero : used ++ 0 :: rest = s.samePos := hsame.symm
      rw [ServoDriver.advance, hzero, List.append_nil, ← hmasks, List.map_nil, List.append_nil]
      exact returns_whileLoop_of_not hnone
  | cons e left ih =>
      have hround := clearRound_eq
        (by rwa [List.append_assoc, List.cons_append] at hentries)
        (by rw [List.length_append] at hsmall; omega) hindex hmasks hsame
      rw [List.length_cons] at hsame hround
      have hmore : PulsesLeft s := by
        rw [pulsesLeft_iff hindex hsame]
        refine ofNat_ne_zero (Nat.succ_pos _) ?_
        rw [List.length_append, List.length_cons] at hsmall
        omega
      rw [ofNat_succ_sub_one] at hround
      rw [List.append_cons front e left] at hentries hsmall ⊢
      obtain ⟨bits, hrest⟩ := @ih (front ++ [e])
        (s.advance (used ++ BitVec.ofNat 8 left.length :: rest) (s.servoIntIndex + e.count)
          (BitVec.ofNat 8 (front.length + 1)) [e.written s.elapsed])
        ⟨hentries.ports, hentries.masks, hentries.sameBits⟩ hsmall hindex
        (by rw [List.length_append]; rfl) rfl
      rw [advance_advance] at hrest
      exact ⟨bits, returns_whileLoop_of_cond hmore hround hrest⟩

/-- What follows the loop of a group. -/
theorem nextGroup_eq {s : ServoDriver π} {used rest : List Byte} {left : Byte} {delay : Word}
    (hindex : tableIndex s.intIndex = some used.length)
    (hsame : s.samePos = used ++ left :: rest)
    (hdelay : readAt s.delays (s.intIndex + 1) = some delay) :
    nextGroup s = some { s with
      samePos := used ++ (left - 1) :: rest, intIndex := s.intIndex + 1, cntTop := delay } := by
  unfold nextGroup
  rw [countDown_eq hindex hsame]
  simp only [Option.bind_eq_bind, Option.bind_some, hdelay]

/-- The loop and what follows it. -/
theorem returns_group {back left : List (Entry π)} {used rest : List Byte}
    {front : List (Entry π)} {s : ServoDriver π} {delay : Word}
    (hentries : EntryTables (front ++ left ++ back) s)
    (hsmall : (front ++ left).length < 128)
    (hindex : tableIndex s.intIndex = some used.length)
    (hmasks : s.masksPortsIndex = BitVec.ofNat 8 front.length)
    (hsame : s.samePos = used ++ BitVec.ofNat 8 left.length :: rest)
    (hdelay : readAt s.delays (s.intIndex + 1) = some delay) :
    ∃ bits, Returns (fun fuel => (whileLoop PulsesLeft clearRound fuel s).bind nextGroup)
      { s.advance (used ++ (0 - 1) :: rest) bits (BitVec.ofNat 8 (front ++ left).length)
          (left.map (Entry.written s.elapsed)) with
        intIndex := s.intIndex + 1, cntTop := delay } := by
  obtain ⟨bits, hclear⟩ := returns_clearRounds hentries hsmall hindex hmasks hsame
  have hnext := @nextGroup_eq _ (s.advance (used ++ 0 :: rest) bits
    (BitVec.ofNat 8 (front ++ left).length) (left.map (Entry.written s.elapsed)))
    used rest 0 delay hindex rfl hdelay
  exact ⟨bits, hclear.bind (returns_of_eq hnext)⟩

/-! ## The groups -/

/-- The positions of the groups, in their order. -/
structure Ascending (groups : List (Group π)) : Prop where
  sorted : (groups.map Group.pos).Pairwise (· ≤ ·)
  bounds : ∀ group ∈ groups, 0 ≤ group.pos ∧ group.pos ≤ 255

/-- Some groups are done, and the timer runs to the time of the next one. -/
structure Replayed (groups : List (Group π)) (starts : List (Int × PadWrite π))
    (done todo : List (Group π)) (s : ServoDriver π) : Prop where
  split : groups = done ++ todo
  intIndex : s.intIndex = BitVec.ofNat 8 done.length
  index : s.masksPortsIndex = BitVec.ofNat 8 (done.flatMap Group.entries).length
  entries : EntryTables (groups.flatMap Group.entries) s
  samePos : ∃ used, used.length = done.length ∧ used ++ todo.map Group.size <+: s.samePos
  delays : delaysFrom 0 (groups.map Group.pos) <+: s.delays
  delays_room : groups.length < s.delays.length
  length_eq : s.length = BitVec.ofNat 8 groups.length
  log : s.log = starts ++ writesOf done
  next : ∀ group ∈ todo.head?, s.elapsed + s.cntTop.toNat = pulseTime group.pos

theorem writesOf_snoc (done : List (Group π)) (group : Group π) :
    writesOf (done ++ [group]) =
      writesOf done ++ group.entries.map (Entry.written (pulseTime group.pos)) := by
  simp [writesOf, clearings, Function.comp_def]

section Replay

variable {groups done todo : List (Group π)} {starts : List (Int × PadWrite π)}
  {group : Group π} {s : ServoDriver π}

theorem Replayed.groups_length (h : Replayed groups starts done (group :: todo) s) :
    groups.length = done.length + (todo.length + 1) := by
  rw [h.split, List.length_append, List.length_cons]

/-- The entries of the next group stand between those before and those behind. -/
theorem Replayed.entries_split (h : Replayed groups starts done (group :: todo) s) :
    groups.flatMap Group.entries =
      done.flatMap Group.entries ++ group.entries ++ todo.flatMap Group.entries := by
  rw [h.split, List.flatMap_append, List.flatMap_cons, List.append_assoc]

/-- From one position to the next one the time does not run back. -/
theorem Ascending.step {following : Group π}
    (h : Ascending (done ++ group :: following :: todo)) :
    0 ≤ following.pos - group.pos ∧ following.pos - group.pos ≤ 255 := by
  have hsorted := h.sorted
  rw [List.map_append, List.map_cons, List.map_cons, List.pairwise_append,
    List.pairwise_cons] at hsorted
  have hle := hsorted.2.1.1 following.pos List.mem_cons_self
  have hgroup := h.bounds group (by simp)
  have hfollowing := h.bounds following (by simp)
  omega

/-- The time that follows a group. -/
theorem Replayed.nextDelay (h : Replayed groups starts done (group :: todo) s)
    (hgroups : groups.length < 128) (hascending : Ascending groups) :
    ∃ delay, readAt s.delays (s.intIndex + 1) = some delay ∧
      ∀ following ∈ todo.head?,
        (delay.toNat : Int) = (following.pos - group.pos) * servoCpuFactor := by
  have hlength := h.groups_length
  have hindex : s.intIndex + 1 = BitVec.ofNat 8 (done.length + 1) := by
    rw [h.intIndex]
    exact (BitVec.ofNat_add _ _).symm
  rw [hindex]
  cases todo with
  | nil =>
      have hroom : done.length + 1 < s.delays.length := hlength ▸ h.delays_room
      refine ⟨s.delays[done.length + 1], ?_, fun _ hnone => absurd hnone (by simp)⟩
      rw [readAt, tableIndex_ofNat (hlength ▸ hgroups), Option.bind_some,
        List.getElem?_eq_getElem hroom]
  | cons following todo =>
      rw [h.split] at hascending
      obtain ⟨hlow, hhigh⟩ := hascending.step
      have hitem := delaysFrom_getElem? 0 (done.map Group.pos) group.pos following.pos
        (todo.map Group.pos)
      rw [List.length_map] at hitem
      refine ⟨delayOf (following.pos - group.pos), ?_, ?_⟩
      · refine readAt_begins h.delays ?_ (by rw [List.length_cons] at hlength; omega)
        rw [h.split, List.map_append]
        exact hitem
      · rintro following' hhead
        rw [List.head?_cons, Option.mem_some] at hhead
        rw [← hhead]
        exact delayOf_toNat hlow hhigh

/-- The index has reached the length of the tables exactly behind the last group. -/
theorem Replayed.atEnd_iff (h : Replayed groups starts done todo s)
    (hgroups : groups.length < 128) : s.intIndex.toInt = s.length.toNat ↔ todo = [] := by
  have hlength : groups.length = done.length + todo.length := by
    rw [h.split, List.length_append]
  rw [h.intIndex, h.length_eq, toInt_ofNat (by omega), BitVec.toNat_ofNat,
    ← List.length_eq_zero_iff]
  omega

/-- Between the groups the interrupt ends pulses. -/
theorem Replayed.timerIrq_eq (h : Replayed groups starts done (group :: todo) s)
    (hgroups : groups.length < 128) (fuel : Nat) :
    timerIrq fuel s = (whileLoop PulsesLeft clearRound fuel
      { s with elapsed := s.elapsed + s.cntTop.toNat }).bind nextGroup := by
  have hlength := h.groups_length
  have hindex : s.intIndex.toInt = done.length := by
    rw [h.intIndex, toInt_ofNat (by omega)]
  have hmore : s.intIndex.toInt ≠ s.length.toNat := by
    rw [Ne, h.atEnd_iff hgroups]
    exact List.cons_ne_nil _ _
  unfold timerIrq servoIrq
  rw [if_neg (by rw [hindex]; omega), if_neg hmore]

/-- An interrupt ends the pulses of one group. -/
theorem Replayed.timerIrq (h : Replayed groups starts done (group :: todo) s)
    (hgroups : groups.length < 128) (hentries : (groups.flatMap Group.entries).length < 128)
    (hascending : Ascending groups) :
    ∃ s', Returns (fun fuel => timerIrq fuel s) s' ∧
      Replayed groups starts (done ++ [group]) todo s' := by
  obtain ⟨delay, hdelay, hnext⟩ := h.nextDelay hgroups hascending
  obtain ⟨used, hused, rest, hsame⟩ := h.samePos
  rw [List.map_cons, List.append_assoc, List.cons_append] at hsame
  have hlength := h.groups_length
  have hindex : tableIndex s.intIndex = some used.length := by
    rw [h.intIndex, tableIndex_ofNat (by omega), hused]
  have htime : s.elapsed + s.cntTop.toNat = pulseTime group.pos := h.next group rfl
  -- the loop, with the timer at the time of the group
  have htables : EntryTables (done.flatMap Group.entries ++ group.entries ++
      todo.flatMap Group.entries) { s with elapsed := s.elapsed + s.cntTop.toNat } := by
    rw [← h.entries_split]
    exact ⟨h.entries.ports, h.entries.masks, h.entries.sameBits⟩
  obtain ⟨bits, hreturns⟩ := returns_group htables
    (by rw [h.entries_split, List.length_append] at hentries; omega)
    hindex h.index hsame.symm hdelay
  simp only [← h.timerIrq_eq hgroups] at hreturns
  refine ⟨_, hreturns, ?_⟩
  exact {
    split := by rw [h.split, List.append_assoc, List.singleton_append]
    intIndex := by
      show s.intIndex + 1 = _
      rw [h.intIndex, List.length_append]
      exact (BitVec.ofNat_add _ _).symm
    index := by
      rw [List.flatMap_append, List.flatMap_singleton]
      rfl
    entries := ⟨h.entries.ports, h.entries.masks, h.entries.sameBits⟩
    samePos := by
      refine ⟨used ++ [0 - 1], by rw [List.length_append, List.length_append, hused]; rfl, rest, ?_⟩
      rw [List.append_assoc, List.append_assoc]
      rfl
    delays := h.delays
    delays_room := h.delays_room
    length_eq := h.length_eq
    log := by
      rw [writesOf_snoc, ← htime, ← List.append_assoc, ← h.log]
      rfl
    next := by
      intro following hhead
      have hdelta := hnext following hhead
      show s.elapsed + s.cntTop.toNat + (delay.toNat : Int) = _
      rw [htime, hdelta, pulseTime, pulseTime]
      ring }

/-- The interrupts go through all groups. -/
theorem Replayed.returns (h : Replayed groups starts [] groups s)
    (hgroups : groups.length < 128) (hentries : (groups.flatMap Group.entries).length < 128)
    (hascending : Ascending groups) :
    ∃ s', Returns (fun fuel => whileLoop (fun s => s.intIndex.toInt ≠ s.length.toNat)
        (App.timerIrq fuel) fuel s) s' ∧ Replayed groups starts groups [] s' := by
  have hloop : ∃ s', Returns (fun fuel => whileLoop (fun s => s.intIndex.toInt ≠ s.length.toNat)
      (App.timerIrq fuel) fuel s) s' ∧ (∃ done todo, Replayed groups starts done todo s') ∧
      ¬s'.intIndex.toInt ≠ s'.length.toNat := by
    refine returns_whileLoop (fun s => groups.length - s.intIndex.toNat) (fun t ht hcond => ?_)
      ⟨[], groups, h⟩
    obtain ⟨done, todo, hreplayed⟩ := ht
    rw [Ne, hreplayed.atEnd_iff hgroups] at hcond
    obtain ⟨group, todo, rfl⟩ := List.exists_cons_of_ne_nil hcond
    obtain ⟨t', hreturns, hnext⟩ := hreplayed.timerIrq hgroups hentries hascending
    refine ⟨t', hreturns, ⟨_, _, hnext⟩, ?_⟩
    have hlength := hreplayed.groups_length
    rw [hnext.intIndex, hreplayed.intIndex, List.length_append, List.length_singleton,
      BitVec.toNat_ofNat, BitVec.toNat_ofNat]
    omega
  obtain ⟨s', hreturns, ⟨done, todo, hreplayed⟩, hstop⟩ := hloop
  have hnone := (hreplayed.atEnd_iff hgroups).1 (not_not.1 hstop)
  subst hnone
  have hall : groups = done := by
    rw [hreplayed.split, List.append_nil]
  exact ⟨s', hreturns, hall ▸ hreplayed⟩

/-- The interrupt that starts the pulses. -/
theorem servoIrq_start {count : Nat} (h : Programmed count (group :: todo) s)
    (hascending : Ascending (group :: todo)) :
    ∃ s', (∀ fuel, servoIrq fuel { s with elapsed := 0, log := [] } = some s') ∧
      Replayed (group :: todo)
        (s.servos.map fun servo => (0, .setPad servo.gpio servo.pin)) [] (group :: todo) s' := by
  obtain ⟨hlow, hhigh⟩ := hascending.bounds group List.mem_cons_self
  have hdelay : s.delays[0]? = some (delayOf group.pos) := by
    obtain ⟨rest, hrest⟩ := h.delays
    rw [← hrest, ← Int.sub_zero group.pos]
    rfl
  have hneg : s.intIndex.toInt < 0 := by
    rw [h.intIndex]
    decide
  unfold servoIrq
  simp only [if_pos hneg, servoStartPulse, hdelay, Option.bind_eq_bind, Option.bind_some,
    List.nil_append]
  refine ⟨_, fun _ => rfl, ?_⟩
  exact {
    split := rfl
    intIndex := rfl
    index := h.index
    entries := ⟨h.entries.ports, h.entries.masks, h.entries.sameBits⟩
    samePos := ⟨[], rfl, h.samePos⟩
    delays := h.delays
    delays_room := by
      rw [h.sized.delays]
      exact Nat.lt_succ_of_le h.length_le
    length_eq := h.length_eq
    log := (List.append_nil _).symm
    next := by
      intro first hfirst
      rw [List.head?_cons, Option.mem_some] at hfirst
      rw [← hfirst, Int.zero_add]
      exact startDelay_toNat hlow hhigh }

/-- The interrupts of one pulse. -/
theorem returns_servoPulse {count : Nat} (h : Programmed count groups s) (hsome : groups ≠ [])
    (hcount : count ≤ 126) (hascending : Ascending groups) :
    ∃ s', Returns (fun fuel => servoPulse fuel s) s' ∧
      Replayed groups (s.servos.map fun servo => (0, .setPad servo.gpio servo.pin))
        groups [] s' := by
  obtain ⟨group, todo, rfl⟩ := List.exists_cons_of_ne_nil hsome
  obtain ⟨t, hstart, hreplayed⟩ := servoIrq_start h hascending
  have hgroups : (group :: todo).length < 128 := by
    have hle := h.length_le
    omega
  have hentries : ((group :: todo).flatMap Group.entries).length < 128 := by
    have hle := h.entries.ports.length_le
    rw [List.length_map, h.sized.ports] at hle
    omega
  obtain ⟨s', hreturns, hend⟩ := hreplayed.returns hgroups hentries hascending
  exact ⟨s', Returns.bind ⟨0, fun fuel _ => hstart fuel⟩ hreturns, hend⟩

end Replay

/-! ## What a pulse does to the pins -/

theorem clearsOf_append [DecidableEq π] (log rest : List (Int × PadWrite π))
    (pad : π × Fin 16) : clearsOf (log ++ rest) pad = clearsOf log pad ++ clearsOf rest pad := by
  rw [clearsOf, List.filter_append, List.map_append]
  rfl

/-- What the groups write clears a pin where they do. -/
theorem clearsOf_writesOf [DecidableEq π] (groups : List (Group π)) (pad : π × Fin 16) :
    clearsOf (writesOf groups) pad = (timesOf (clearings groups) pad).map pulseTime := by
  have hclears (clearing : Int × Entry π) :
      decide ((clearing.2.written (pulseTime clearing.1)).2.Clears pad) =
        decide (clearing.2.Clears pad) := by
    refine decide_eq_decide.2 (and_congr_right fun _ => ?_)
    rw [BitVec.getLsbD_setWidth, decide_eq_true pad.2.isLt, Bool.true_and]
  rw [clearsOf, writesOf, List.filter_map, List.map_map, timesOf, List.map_map]
  simp only [Function.comp_def, hclears]
  rfl

theorem clearsOf_starts [DecidableEq π] (servos : List (Servo π)) (pad : π × Fin 16) :
    clearsOf (servos.map fun servo => (0, .setPad servo.gpio servo.pin)) pad = [] := by
  rw [clearsOf, List.map_eq_nil_iff, List.filter_eq_nil_iff]
  intro entry hentry
  obtain ⟨servo, -, rfl⟩ := List.mem_map.1 hentry
  exact Bool.false_ne_true

theorem servoCmpByPos_le {a b : Servo π} : servoCmpByPos a b ≤ 0 ↔ a.actualPos ≤ b.actualPos := by
  unfold servoCmpByPos
  split
  next h => exact iff_of_true (Int.le_refl 0) h.le
  next h =>
    split
    next hlt => exact iff_of_true (by decide) hlt.le
    next hge => exact iff_of_false (by decide) (by omega)

theorem actualPos_bounds (servo : Servo π) : 0 ≤ servo.actualPos ∧ servo.actualPos ≤ 255 := by
  unfold Servo.actualPos
  omega

namespace Plan

variable [DecidableEq π]

/-- One servo more gives at most one position more. -/
theorem positions_add (p : Plan π) (servo : Servo π) :
    (p.add servo).groups.map Group.pos = p.groups.map Group.pos ∨
      (p.add servo).groups.map Group.pos = p.groups.map Group.pos ++ [servo.actualPos] := by
  rw [groups_positions, groups_positions]
  unfold add
  split
  next =>
    split
    next => exact .inl rfl
    next => exact .inl rfl
  next => exact .inr (by rw [groups_positions])

/-- The positions of the groups are some of those of the servos. -/
theorem positions_sublist (first : Servo π) (rest : List (Servo π)) :
    ((ofServos first rest).groups.map Group.pos).Sublist
      ((first :: rest).map Servo.actualPos) := by
  induction rest using List.reverseRecOn with
  | nil => exact List.Sublist.refl _
  | append_singleton rest servo ih =>
      rw [ofServos_snoc, ← List.cons_append, List.map_append]
      rcases positions_add (ofServos first rest) servo with hsame | hmore
      · rw [hsame]
        exact ih.trans (List.sublist_append_left _ _)
      · rw [hmore]
        exact ih.append (List.Sublist.refl _)

theorem ofServos_ascending {first : Servo π} {rest : List (Servo π)}
    (hsorted : (first :: rest).Pairwise fun a b => servoCmpByPos a b ≤ 0) :
    Ascending (ofServos first rest).groups where
  sorted := by
    refine List.Pairwise.sublist (positions_sublist first rest) ?_
    rw [List.pairwise_map]
    exact hsorted.imp servoCmpByPos_le.1
  bounds := by
    intro group hgroup
    have hmem := (positions_sublist first rest).subset (List.mem_map_of_mem hgroup)
    obtain ⟨servo, -, hpos⟩ := List.mem_map.1 hmem
    exact hpos ▸ actualPos_bounds servo

end Plan

/-- A sort that keeps the order of equal servos. -/
theorem mergeSort_sorts : Sorts (servoCmpByPos (π := π))
    fun servos => servos.mergeSort fun a b => decide (servoCmpByPos a b ≤ 0) where
  perm servos := List.mergeSort_perm servos _
  sorted servos := by
    have htrans (a b c : Servo π) (hab : decide (servoCmpByPos a b ≤ 0))
        (hbc : decide (servoCmpByPos b c ≤ 0)) : decide (servoCmpByPos a c ≤ 0) := by
      rw [decide_eq_true_eq, servoCmpByPos_le] at hab hbc ⊢
      exact hab.trans hbc
    have htotal (a b : Servo π) :
        decide (servoCmpByPos a b ≤ 0) || decide (servoCmpByPos b a ≤ 0) := by
      rw [Bool.or_eq_true, decide_eq_true_eq, decide_eq_true_eq, servoCmpByPos_le,
        servoCmpByPos_le]
      exact Int.le_total _ _
    exact (List.pairwise_mergeSort htrans htotal servos).imp of_decide_eq_true

/-- For every number of servos on different pins, whatever their positions and offsets are, how
`qsort` orders the equal ones and what is read behind the last one, the thread and the interrupts
get to their ends with every index in its table, and every pin is cleared once, at the time of its
servo. -/
theorem servoPulse_clears [DecidableEq π] {qsort : List (Servo π) → List (Servo π)}
    (hqsort : Sorts servoCmpByPos qsort) {s : ServoDriver π} (hsome : 1 ≤ s.servos.length)
    (hmany : s.servos.length ≤ 126) (hpads : (s.servos.map Servo.pad).Nodup)
    (hsized : s.Sized s.servos.length) (lookAhead : Int) :
    ∃ s', Returns (fun fuel => (servoThread qsort lookAhead fuel s).bind (servoPulse fuel)) s' ∧
      s'.intIndex.toInt = s'.length.toNat ∧
      ∀ servo ∈ s.servos, clearsOf s'.log servo.pad =
        [servoStartOffset + servo.actualPos * servoCpuFactor] := by
  have hperm := hqsort.perm s.servos
  obtain ⟨first, others, hsorted⟩ : ∃ first others, qsort s.servos = first :: others :=
    List.exists_cons_of_ne_nil (List.ne_nil_of_length_pos (hperm.length_eq.symm ▸ hsome))
  have hlength : (first :: others).length = s.servos.length := hsorted ▸ hperm.length_eq
  have hascending := Plan.ofServos_ascending (hsorted ▸ hqsort.sorted s.servos)
  have hpads' : ((first :: others).map Servo.pad).Nodup :=
    (hsorted ▸ hperm.map Servo.pad).nodup_iff.2 hpads
  obtain ⟨t, hthread, hprogrammed⟩ :=
    returns_servoThread hsorted (hlength.symm ▸ hsized) lookAhead
  obtain ⟨s', hpulse, hreplayed⟩ := returns_servoPulse hprogrammed
    (List.append_ne_nil_of_right_ne_nil _ (List.cons_ne_nil _ _)) (hlength ▸ hmany) hascending
  refine ⟨s', hthread.bind hpulse, ?_, fun servo hservo => ?_⟩
  · rw [hreplayed.atEnd_iff]
    have hle := hprogrammed.length_le
    omega
  · have htimes := Plan.clearTimes_mem hpads' (hsorted ▸ hperm.mem_iff.2 hservo)
    rw [hreplayed.log, clearsOf_append, clearsOf_starts, List.nil_append, clearsOf_writesOf]
    rw [Plan.clearTimes] at htimes
    rw [htimes]
    rfl

/-- Two servos at one position on different ports and one far behind them. -/
theorem servoPulse_clears_three :
    ∃ s', Returns (fun fuel => (servoThread (fun servos => servos.mergeSort fun a b =>
          decide (servoCmpByPos a b ≤ 0)) 10 fuel (.boot
        [⟨10, 0, 'B', 3⟩, ⟨300, 5, 'C', 7⟩, ⟨4, 6, 'A', 3⟩] 'N')).bind (servoPulse fuel)) s' ∧
      clearsOf s'.log ('B', 3) = [1040] ∧ clearsOf s'.log ('C', 7) = [2020] ∧
        clearsOf s'.log ('A', 3) = [1040] := by
  obtain ⟨s', hreturns, -, hclears⟩ := servoPulse_clears mergeSort_sorts
    (s := .boot [⟨10, 0, 'B', 3⟩, ⟨300, 5, 'C', 7⟩, ⟨4, 6, 'A', 3⟩] 'N')
    (by decide) (by decide) (by decide) (ServoDriver.boot_sized _ _) 10
  exact ⟨s', hreturns, hclears ⟨10, 0, 'B', 3⟩ (by decide), hclears ⟨300, 5, 'C', 7⟩ (by decide),
    hclears ⟨4, 6, 'A', 3⟩ (by decide)⟩

end Bldc.App
