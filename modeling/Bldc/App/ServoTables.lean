import Bldc.App.ServoPlan

/-!
# The tables of a pulse

The loops of `servo_thread` write a plan into the tables, whatever they read behind the last
servo. No index leaves its table.
-/

namespace Bldc.App

open Flash Foundation

variable {π : Type}

/-- The number of the entries of a group, as it stands in `same_pos`. -/
def Group.size (group : Group π) : Byte := BitVec.ofNat 8 group.entries.length

/-- The times from each position to the next one. -/
def delaysFrom (prev : Int) : List Int → List Word
  | [] => []
  | pos :: rest => delayOf (pos - prev) :: delaysFrom pos rest

theorem delaysFrom_length (prev : Int) (positions : List Int) :
    (delaysFrom prev positions).length = positions.length := by
  induction positions generalizing prev with
  | nil => rfl
  | cons pos positions ih => exact congrArg (· + 1) (ih pos)

theorem delaysFrom_snoc (prev : Int) (front : List Int) (pos next : Int) :
    delaysFrom prev (front ++ [pos] ++ [next]) =
      delaysFrom prev (front ++ [pos]) ++ [delayOf (next - pos)] := by
  induction front generalizing prev with
  | nil => rfl
  | cons first front ih => exact congrArg (delayOf (first - prev) :: ·) (ih first)

/-- The tables of the entries hold these ones. -/
structure EntryTables (entries : List (Entry π)) (s : ServoDriver π) : Prop where
  ports : entries.map Entry.port <+: s.ports
  masks : entries.map Entry.mask <+: s.masks
  sameBits : Padded 1 (entries.map Entry.count) s.sameBits

/-- The tables hold the plan, and the local variables are the indices of its ends. -/
structure Represents (count : Nat) (p : Plan π) (s : ServoScan π) : Prop where
  i_eq : s.i = p.finished.length
  k_eq : s.k = p.before.length
  i_lt : s.i < s.j
  k_lt : s.k < s.j
  entries : EntryTables (p.before ++ [p.entry]) s.toServoDriver
  samePos : Padded 1
    (p.finished.map Group.size ++ [BitVec.ofNat 8 (p.entries.length + 1)]) s.samePos
  delays : delaysFrom 0 (p.finished.map Group.pos ++ [p.pos]) <+: s.delays
  sized : s.Sized count
  index : s.masksPortsIndex = 0
  running : s.running

theorem EntryTables.snoc {entries : List (Entry π)} {s : ServoDriver π} {count : Nat}
    (h : EntryTables entries s) (hsized : s.Sized count) (hroom : entries.length < count)
    (servo : Servo π) :
    ∃ ports masks, writeAt s.ports entries.length servo.gpio = some ports ∧
      writeAt s.masks entries.length (bv servo.pin) = some masks ∧
      EntryTables (entries ++ [.single servo]) { s with ports := ports, masks := masks } ∧
      ServoDriver.Sized count { s with ports := ports, masks := masks } := by
  have hports := writeAt_snoc h.ports (by rwa [List.length_map, hsized.ports]) servo.gpio
  have hmasks := writeAt_snoc h.masks (by rwa [List.length_map, hsized.masks]) (bv servo.pin)
  have hbits := h.sameBits.snoc (by rw [List.length_map, hsized.sameBits]; omega)
  rw [List.length_map] at hports hmasks
  obtain ⟨ports, hports, hprefix, hlength⟩ := hports
  obtain ⟨masks, hmasks, hprefix', hlength'⟩ := hmasks
  refine ⟨ports, masks, hports, hmasks, ⟨?_, ?_, ?_⟩, { hsized with
    ports := hlength.trans hsized.ports, masks := hlength'.trans hsized.masks }⟩
  · rwa [List.map_append]
  · rwa [List.map_append]
  · rwa [List.map_append]

/-- The mask and the number of the last entry. -/
theorem EntryTables.extend {before : List (Entry π)} {e : Entry π} {s : ServoDriver π}
    {count : Nat} (h : EntryTables (before ++ [e]) s) (hsized : s.Sized count)
    (servo : Servo π) :
    ∃ masks bits, modifyAt s.masks before.length (· ||| bv servo.pin) = some masks ∧
      modifyAt s.sameBits before.length (· + 1) = some bits ∧
      EntryTables (before ++ [e.extend servo]) { s with masks := masks, sameBits := bits } ∧
      ServoDriver.Sized count { s with masks := masks, sameBits := bits } := by
  obtain ⟨hports, hmasks, hbits⟩ := h
  rw [List.map_append] at hports hmasks hbits
  have hmasks := modifyAt_last hmasks (· ||| bv servo.pin)
  have hbits := hbits.modifyAt_last (· + 1)
  rw [List.length_map] at hmasks hbits
  obtain ⟨masks, hmasks, hprefix, hlength⟩ := hmasks
  obtain ⟨bits, hbits, hpadded, hlength'⟩ := hbits
  refine ⟨masks, bits, hmasks, hbits, ⟨?_, ?_, ?_⟩, { hsized with
    masks := hlength.trans hsized.masks, sameBits := hlength'.trans hsized.sameBits }⟩
  · rwa [List.map_append]
  · rwa [List.map_append]
  · rwa [List.map_append]

/-- In the same group the last entry joins the others. -/
theorem Plan.before_sameGroup (p : Plan π) (e : Entry π) :
    (Plan.mk p.finished p.pos (p.entries ++ [p.entry]) e).before = p.before ++ [p.entry] :=
  (List.append_assoc _ _ _).symm

/-- So it does with its group. -/
theorem Plan.before_newGroup (p : Plan π) (pos : Int) (e : Entry π) :
    (Plan.mk p.groups pos [] e).before = p.before ++ [p.entry] := by
  simp [Plan.before, Plan.groups]

theorem Plan.groups_sizes (p : Plan π) :
    p.groups.map Group.size =
      p.finished.map Group.size ++ [BitVec.ofNat 8 (p.entries.length + 1)] := by
  simp [Plan.groups, Group.size]

theorem Plan.groups_entries (p : Plan π) :
    p.groups.flatMap Group.entries = p.before ++ [p.entry] := by
  simp [Plan.groups, Plan.before]

theorem Plan.groups_positions (p : Plan π) :
    p.groups.map Group.pos = p.finished.map Group.pos ++ [p.pos] := by
  simp [Plan.groups]

section Rounds

variable [DecidableEq π] {count : Nat} {p : Plan π} {s : ServoScan π} {sorted : List (Servo π)}
  {servo prev : Servo π}

omit [DecidableEq π] in
theorem Represents.entries_length (h : Represents count p s) :
    (p.before ++ [p.entry]).length = s.k + 1 := by
  rw [List.length_append, ← h.k_eq]
  rfl

omit [DecidableEq π] in
/-- A new entry behind the last one. -/
theorem Represents.newEntry (h : Represents count p s) (hj : s.j < count) (servo : Servo π) :
    ∃ ports masks, writeAt s.ports (s.k + 1) servo.gpio = some ports ∧
      writeAt s.masks (s.k + 1) (bv servo.pin) = some masks ∧
      EntryTables (p.before ++ [p.entry] ++ [.single servo])
        { s.toServoDriver with ports := ports, masks := masks } ∧
      ServoDriver.Sized count { s.toServoDriver with ports := ports, masks := masks } := by
  have hroom : (p.before ++ [p.entry]).length < count := by
    rw [h.entries_length]
    exact (Nat.succ_le_of_lt h.k_lt).trans_lt hj
  have hsnoc := h.entries.snoc h.sized hroom servo
  rwa [h.entries_length] at hsnoc

/-- A servo at the same position becomes a part of the group. -/
theorem samePosRound_add (h : Represents count p s) (hj : s.j < count)
    (hservo : sorted[s.j]? = some servo) (hprev : sorted[s.j - 1]? = some prev)
    (hpos : servo.actualPos = p.pos) (hport : prev.gpio = p.entry.port) :
    ∃ s', samePosRound sorted s = some s' ∧ Represents count (p.add servo) s' ∧
      s'.j = s.j + 1 := by
  unfold samePosRound
  rw [hservo, hprev]
  simp only [Option.bind_eq_bind, Option.bind_some]
  unfold Plan.add
  rw [if_pos hpos, hport]
  have hilt := h.i_lt.trans (Nat.lt_succ_self s.j)
  split
  next hgpio =>
    obtain ⟨masks, bits, hmasks, hbits, hentries, hsized⟩ := h.entries.extend h.sized servo
    rw [← h.k_eq] at hmasks hbits
    rw [hmasks, Option.bind_some, hbits, Option.bind_some]
    exact ⟨_, rfl, { h with
      i_lt := hilt, k_lt := h.k_lt.trans (Nat.lt_succ_self s.j), entries := hentries,
      sized := hsized }, rfl⟩
  next hgpio =>
    obtain ⟨same, hsame, hpadded, hlength⟩ := h.samePos.modifyAt_last (· + 1)
    obtain ⟨ports, masks, hports, hmasks, hentries, hsized⟩ := h.newEntry hj servo
    rw [List.length_map, ← h.i_eq] at hsame
    rw [hsame, Option.bind_some, hports, Option.bind_some, hmasks, Option.bind_some]
    refine ⟨_, rfl, { h with
      k_eq := ?_, i_lt := hilt, k_lt := Nat.succ_lt_succ h.k_lt, entries := ?_, samePos := ?_,
      sized := { hsized with samePos := hlength.trans hsized.samePos } }, rfl⟩
    · rw [Plan.before_sameGroup, h.entries_length]
    · rw [Plan.before_sameGroup]
      exact ⟨hentries.ports, hentries.masks, hentries.sameBits⟩
    · rwa [List.length_append, List.length_singleton, BitVec.ofNat_add]

/-- A servo at another position begins a group. -/
theorem nextPos_add {lookAhead : Int} (h : Represents count p s) (hj : s.j < count)
    (hlength : sorted.length = count) (hservo : sorted[s.j]? = some servo)
    (hprev : sorted[s.j - 1]? = some prev) (hpos : servo.actualPos ≠ p.pos)
    (hprevPos : prev.actualPos = p.pos) :
    ∃ s', nextPos sorted lookAhead s = some s' ∧ Represents count (p.add servo) s' ∧
      s'.j = s.j + 1 := by
  unfold nextPos
  rw [if_pos (hlength ▸ hj), actualPosAt, actualPosAt, hservo, hprev]
  simp only [Option.bind_eq_bind, Option.bind_some, Option.map_some, Option.getD_some]
  unfold Plan.add
  rw [if_neg hpos, hprevPos]
  have hcount : (delaysFrom 0 (p.finished.map Group.pos ++ [p.pos])).length = s.i + 1 := by
    rw [delaysFrom_length, List.length_append, List.length_map, ← h.i_eq]
    rfl
  obtain ⟨ports, masks, hports, hmasks, hentries, hsized⟩ := h.newEntry hj servo
  have hdelays := writeAt_snoc h.delays
    (by rw [hcount, h.sized.delays]; exact Nat.succ_lt_succ (h.i_lt.trans hj))
    (delayOf (servo.actualPos - p.pos))
  obtain ⟨delays, hdelays, hprefix, hdelaysLength⟩ := hdelays
  rw [hcount] at hdelays
  rw [hdelays, Option.bind_some, hports, Option.bind_some, hmasks, Option.bind_some]
  refine ⟨_, rfl, { h with
    i_eq := ?_, k_eq := ?_, i_lt := Nat.succ_lt_succ h.i_lt, k_lt := Nat.succ_lt_succ h.k_lt,
    entries := ?_, samePos := ?_, delays := ?_,
    sized := { hsized with delays := hdelaysLength.trans hsized.delays } }, rfl⟩
  · rw [h.i_eq, Plan.groups, List.length_append]
    rfl
  · rw [Plan.before_newGroup, h.entries_length]
  · rw [Plan.before_newGroup]
    exact ⟨hentries.ports, hentries.masks, hentries.sameBits⟩
  · have hsame := h.samePos
    rw [← Plan.groups_sizes] at hsame
    refine hsame.snoc ?_
    rw [h.sized.samePos, Plan.groups_sizes, List.length_append, List.length_map, ← h.i_eq]
    exact Nat.succ_lt_succ (h.i_lt.trans hj)
  · rwa [Plan.groups_positions, delaysFrom_snoc]

/-- What is behind the loops. -/
structure Finished (count : Nat) (p : Plan π) (s : ServoScan π) : Prop where
  i_eq : s.i = p.groups.length
  i_le : s.i ≤ count
  entries : EntryTables (p.before ++ [p.entry]) s.toServoDriver
  samePos : p.groups.map Group.size <+: s.samePos
  delays : delaysFrom 0 (p.groups.map Group.pos) <+: s.delays
  sized : s.Sized count
  index : s.masksPortsIndex = 0

omit [DecidableEq π] in
/-- Behind the last servo the loop ends. -/
theorem nextPos_end {lookAhead : Int} (h : Represents count p s) (hj : s.j = count)
    (hlength : sorted.length = count) :
    ∃ s', nextPos sorted lookAhead s = some s' ∧ Finished count p s' ∧ s'.running = false := by
  unfold nextPos
  rw [if_neg (by rw [hlength, hj]; exact Nat.lt_irrefl _)]
  refine ⟨_, rfl, ⟨?_, ?_, h.entries, ?_, ?_, h.sized, h.index⟩, rfl⟩
  · rw [Plan.groups, List.length_append, h.i_eq]
    rfl
  · rw [← hj]
    exact h.i_lt
  · rw [Plan.groups_sizes]
    exact h.samePos.begins
  · rw [Plan.groups_positions]
    exact h.delays

omit [DecidableEq π] in
/-- The tables before the loops. -/
theorem startScan_start {first : Servo π} {others : List (Servo π)} {s : ServoDriver π}
    (hsized : s.Sized (first :: others).length) :
    ∃ s', startScan (first :: others) s = some s' ∧
      Represents (first :: others).length (Plan.start first) s' ∧ s'.j = 1 := by
  obtain ⟨delays, hdelays, hdelaysBegin, hdelaysLength⟩ := writeAt_snoc
    (List.nil_prefix (l := s.delays)) (by rw [hsized.delays]; exact Nat.succ_pos _)
    (delayOf first.actualPos)
  obtain ⟨masks, hmasks, hmasksBegin, hmasksLength⟩ := writeAt_snoc
    (List.nil_prefix (l := s.masks)) (by rw [hsized.masks]; exact Nat.succ_pos _) (bv first.pin)
  obtain ⟨ports, hports, hportsBegin, hportsLength⟩ := writeAt_snoc
    (List.nil_prefix (l := s.ports)) (by rw [hsized.ports]; exact Nat.succ_pos _) first.gpio
  obtain ⟨same, hsame, hsamePadded, hsameLength⟩ := fillTo_padded hsized.samePos 1
  obtain ⟨bits, hbits, hbitsPadded, hbitsLength⟩ := fillTo_padded hsized.sameBits 1
  rw [List.length_nil] at hdelays hmasks hports
  unfold startScan
  simp only [Option.bind_eq_bind, List.getElem?_cons_zero, Option.bind_some, hdelays, hmasks,
    hports, hsame, hbits]
  refine ⟨_, rfl, ?_, rfl⟩
  exact {
    i_eq := rfl
    k_eq := rfl
    i_lt := Nat.one_pos
    k_lt := Nat.one_pos
    entries := ⟨hportsBegin, hmasksBegin,
      hbitsPadded.snoc (by rw [hbitsLength, hsized.sameBits]; exact Nat.succ_pos _)⟩
    samePos := hsamePadded.snoc (by rw [hsameLength, hsized.samePos]; exact Nat.succ_pos _)
    delays := by
      have hfirst : first.actualPos - 0 = first.actualPos := Int.sub_zero _
      rw [Plan.start, List.map_nil, List.nil_append, delaysFrom, delaysFrom, hfirst]
      exact hdelaysBegin
    sized := ⟨hdelaysLength.trans hsized.delays, hsameLength.trans hsized.samePos,
      hbitsLength.trans hsized.sameBits, hmasksLength.trans hsized.masks,
      hportsLength.trans hsized.ports⟩
    index := rfl
    running := rfl }

/-! ## The loops -/

omit [DecidableEq π] in
theorem readOf_sorted {lookAhead : Int} {j : Nat} (h : sorted[j]? = some servo) :
    actualPosAt sorted lookAhead j = servo.actualPos := by
  rw [actualPosAt, h]
  rfl

/-- The servo before is the one that has come into the plan last. -/
theorem last_ofServos (first : Servo π) (others : List (Servo π)) {n : Nat}
    (hn : n ≤ others.length) :
    ∃ prev, (first :: others)[n]? = some prev ∧
      prev.actualPos = (Plan.ofServos first (others.take n)).pos ∧
      prev.gpio = (Plan.ofServos first (others.take n)).entry.port := by
  cases n with
  | zero => exact ⟨first, rfl, rfl, rfl⟩
  | succ n =>
      have hlast := Plan.add_last (Plan.ofServos first (others.take n)) others[n]
      refine ⟨others[n], List.getElem?_eq_getElem hn, ?_⟩
      rw [← List.take_append_getElem hn, Plan.ofServos_snoc]
      exact ⟨hlast.1.symm, hlast.2.symm⟩

/-- Some servos are in the plan, and the tables hold it. -/
structure Scanned (first : Servo π) (others : List (Servo π)) (s : ServoScan π) : Prop where
  j_pos : 0 < s.j
  j_le : s.j ≤ (first :: others).length
  tables : Represents (first :: others).length (Plan.ofServos first (others.take (s.j - 1))) s

namespace Scanned

variable {first : Servo π} {others : List (Servo π)}

/-- The next servo and the one before. -/
theorem next (h : Scanned first others s) (hj : s.j < (first :: others).length) :
    ∃ servo prev, (first :: others)[s.j]? = some servo ∧
      (first :: others)[s.j - 1]? = some prev ∧
      prev.actualPos = (Plan.ofServos first (others.take (s.j - 1))).pos ∧
      prev.gpio = (Plan.ofServos first (others.take (s.j - 1))).entry.port ∧
      (Plan.ofServos first (others.take (s.j - 1))).add servo =
        Plan.ofServos first (others.take s.j) := by
  obtain ⟨n, hn⟩ := Nat.exists_eq_add_of_le' h.j_pos
  rw [hn, List.length_cons] at hj
  have hlt : n < others.length := Nat.lt_of_succ_lt_succ hj
  obtain ⟨prev, hprev, hpos, hport⟩ := last_ofServos first others hlt.le
  rw [hn, Nat.add_sub_cancel]
  refine ⟨others[n], prev, List.getElem?_eq_getElem hlt, hprev, hpos, hport, ?_⟩
  rw [← List.take_append_getElem hlt, Plan.ofServos_snoc]

theorem succ {s' : ServoScan π}
    (hj : s.j < (first :: others).length) (hj' : s'.j = s.j + 1)
    (htables : Represents (first :: others).length (Plan.ofServos first (others.take s.j)) s') :
    Scanned first others s' where
  j_pos := hj' ▸ Nat.succ_pos _
  j_le := hj' ▸ hj
  tables := by rwa [hj', Nat.add_sub_cancel]

/-- The inner loop takes in the servos of one position. -/
theorem returns_samePos (h : Scanned first others s) (lookAhead : Int) :
    ∃ s', Returns (fun fuel => whileLoop (SamePos (first :: others) lookAhead)
        (samePosRound (first :: others)) fuel s) s' ∧
      (Scanned first others s' ∧ s.j ≤ s'.j) ∧ ¬SamePos (first :: others) lookAhead s' := by
  refine returns_whileLoop (I := fun t => Scanned first others t ∧ s.j ≤ t.j)
    (fun t => (first :: others).length - t.j) (fun t ht hcond => ?_) ⟨h, Nat.le_refl _⟩
  obtain ⟨hscanned, hle⟩ := ht
  obtain ⟨hpos, hj⟩ := hcond
  obtain ⟨servo, prev, hservo, hprev, hprevPos, hport, hplan⟩ := hscanned.next hj
  rw [readOf_sorted hservo, readOf_sorted hprev, hprevPos] at hpos
  obtain ⟨t', hround, htables, hj'⟩ :=
    samePosRound_add hscanned.tables hj hservo hprev hpos hport
  rw [hplan] at htables
  refine ⟨t', returns_of_eq hround, ⟨succ hj hj' htables, ?_⟩, ?_⟩
  · rw [hj']
    exact Nat.le_succ_of_le hle
  · rw [hj']
    omega

/-- Behind it comes a servo at another position, or the end. -/
theorem nextPos {lookAhead : Int} (h : Scanned first others s)
    (hcond : ¬SamePos (first :: others) lookAhead s) :
    ∃ s', App.nextPos (first :: others) lookAhead s = some s' ∧
      (Scanned first others s' ∧ s.j < s'.j ∨
        Finished (first :: others).length (Plan.ofServos first others) s' ∧
          s'.running = false) := by
  obtain hj | hj := Nat.lt_or_eq_of_le h.j_le
  · obtain ⟨servo, prev, hservo, hprev, hprevPos, hport, hplan⟩ := h.next hj
    have hpos : servo.actualPos ≠ (Plan.ofServos first (others.take (s.j - 1))).pos := by
      intro heq
      refine hcond ⟨?_, hj⟩
      rw [readOf_sorted hservo, readOf_sorted hprev, hprevPos, heq]
    obtain ⟨s', hnext, htables, hj'⟩ :=
      nextPos_add h.tables hj rfl hservo hprev hpos hprevPos
    rw [hplan] at htables
    exact ⟨s', hnext, .inl ⟨succ hj hj' htables, hj' ▸ Nat.lt_succ_self _⟩⟩
  · have hall : others.take (s.j - 1) = others := by
      rw [hj]
      exact List.take_length
    have htables := h.tables
    rw [hall] at htables
    obtain ⟨s', hnext, hfinished, hstopped⟩ := nextPos_end htables hj rfl
    exact ⟨s', hnext, .inr ⟨hfinished, hstopped⟩⟩

/-- The number of rounds of the outer loop that can follow. -/
def roundsLeft (count : Nat) (s : ServoScan π) : Nat := if s.running then count + 1 - s.j else 0

/-- What holds between two rounds of the outer loop. -/
def Between (first : Servo π) (others : List (Servo π)) (s : ServoScan π) : Prop :=
  Scanned first others s ∨
    Finished (first :: others).length (Plan.ofServos first others) s ∧ s.running = false

theorem Between.scanned (h : Between first others s) (hrunning : s.running) :
    Scanned first others s := by
  rcases h with hscanned | ⟨-, hstopped⟩
  · exact hscanned
  · exact absurd hrunning (by rw [hstopped]; exact Bool.false_ne_true)

/-- A round of the outer loop. -/
theorem returns_outerRound (h : Scanned first others s) (lookAhead : Int) :
    ∃ s', Returns (fun fuel => outerRound (first :: others) lookAhead fuel s) s' ∧
      Between first others s' ∧
      roundsLeft (first :: others).length s' < roundsLeft (first :: others).length s := by
  obtain ⟨t, hinner, ⟨hscanned, hle⟩, hcond⟩ := h.returns_samePos lookAhead
  obtain ⟨s', hnext, hend⟩ := hscanned.nextPos hcond
  have hj := h.j_le
  refine ⟨s', hinner.bind (returns_of_eq hnext), ?_⟩
  rw [roundsLeft, roundsLeft, if_pos h.tables.running]
  rcases hend with ⟨hmore, hlt⟩ | ⟨hfinished, hstopped⟩
  · refine ⟨.inl hmore, ?_⟩
    rw [if_pos hmore.tables.running]
    omega
  · refine ⟨.inr ⟨hfinished, hstopped⟩, ?_⟩
    rw [if_neg (by rw [hstopped]; exact Bool.false_ne_true)]
    omega

/-- The loops end with all servos in the plan. -/
theorem returns_outer (h : Scanned first others s) (lookAhead : Int) :
    ∃ s', Returns (fun fuel => whileLoop (fun s => s.running)
        (outerRound (first :: others) lookAhead fuel) fuel s) s' ∧
      Finished (first :: others).length (Plan.ofServos first others) s' := by
  have hloop : ∃ s', Returns (fun fuel => whileLoop (fun s => s.running)
      (outerRound (first :: others) lookAhead fuel) fuel s) s' ∧
      Between first others s' ∧ ¬s'.running :=
    returns_whileLoop (roundsLeft (first :: others).length)
      (fun _ hbetween hrunning => (hbetween.scanned hrunning).returns_outerRound lookAhead) (.inl h)
  obtain ⟨s', hreturns, hend, hstop⟩ := hloop
  rcases hend with hscanned | ⟨hfinished, -⟩
  · exact absurd hscanned.tables.running hstop
  · exact ⟨s', hreturns, hfinished⟩

end Scanned

/-- The tables of a driver whose interrupt is to begin with the groups. -/
structure Programmed (count : Nat) (groups : List (Group π)) (s : ServoDriver π) : Prop where
  length_eq : s.length = BitVec.ofNat 8 groups.length
  length_le : groups.length ≤ count
  entries : EntryTables (groups.flatMap Group.entries) s
  samePos : groups.map Group.size <+: s.samePos
  delays : delaysFrom 0 (groups.map Group.pos) <+: s.delays
  sized : s.Sized count
  intIndex : s.intIndex = -1
  index : s.masksPortsIndex = 0

omit [DecidableEq π] in
/-- The end of the round. -/
theorem finishScan_programmed {first : Servo π} {others : List (Servo π)}
    (h : Finished (first :: others).length p s) :
    ∃ s', finishScan (first :: others) s = some s' ∧
      Programmed (first :: others).length p.groups s' := by
  have hlast : (first :: others)[(first :: others).length - 1]? =
      some (first :: others)[others.length] :=
    List.getElem?_eq_getElem (Nat.lt_succ_self others.length)
  obtain ⟨delays, hdelays, hprefix, hlength⟩ := writeAt_snoc h.delays
    (by rw [delaysFrom_length, List.length_map, ← h.i_eq, h.sized.delays]
        exact Nat.lt_succ_of_le h.i_le)
    (BitVec.ofInt 32 ((first :: others)[others.length].actualPos * servoCpuFactor + 120))
  rw [delaysFrom_length, List.length_map, ← h.i_eq] at hdelays
  unfold finishScan
  rw [hlast]
  simp only [Option.bind_eq_bind, Option.bind_some, hdelays]
  refine ⟨_, rfl, ?_⟩
  exact {
    length_eq := congrArg (BitVec.ofNat 8) h.i_eq
    length_le := h.i_eq ▸ h.i_le
    entries := by
      rw [Plan.groups_entries]
      exact ⟨h.entries.ports, h.entries.masks, h.entries.sameBits⟩
    samePos := h.samePos
    delays := (List.prefix_append _ _).trans hprefix
    sized := { h.sized with delays := hlength.trans h.sized.delays }
    intIndex := rfl
    index := h.index }

/-- `servo_thread` gets to its end and leaves the plan of the sorted servos in the tables. -/
theorem returns_servoThread {qsort : List (Servo π) → List (Servo π)} {s : ServoDriver π}
    {first : Servo π} {others : List (Servo π)} (hsorted : qsort s.servos = first :: others)
    (hsized : s.Sized (first :: others).length) (lookAhead : Int) :
    ∃ s', Returns (fun fuel => servoThread qsort lookAhead fuel s) s' ∧
      Programmed (first :: others).length (Plan.ofServos first others).groups s' := by
  obtain ⟨s₁, hstart, htables, hj⟩ := startScan_start hsized
  have hscanned : Scanned first others s₁ := by
    refine ⟨hj ▸ Nat.one_pos, hj ▸ Nat.succ_le_succ (Nat.zero_le _), ?_⟩
    rw [hj]
    exact htables
  obtain ⟨s₂, hloops, hfinished⟩ := hscanned.returns_outer lookAhead
  obtain ⟨s₃, hend, hprogrammed⟩ := finishScan_programmed hfinished
  refine ⟨s₃, ?_, hprogrammed⟩
  have hrest : Returns (fun fuel => (whileLoop (fun s => s.running)
      (outerRound (first :: others) lookAhead fuel) fuel s₁).bind
        (finishScan (first :: others))) s₃ := hloops.bind (returns_of_eq hend)
  unfold servoThread
  rw [hsorted]
  exact (returns_of_eq hstart).bind hrest

end Rounds

end Bldc.App
