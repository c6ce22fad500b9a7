import Bldc.Command.Process
import Bldc.Drive.Commutation
import Bldc.Foundation.Scan
import Mathlib.Data.Int.ConditionallyCompleteOrder
import Mathlib.Data.Int.Interval
import Mathlib.Data.Set.Function
import Mathlib.Tactic.IntervalCases

/-!
# The result of a hall sensor detection

A detection has counted how often each hall state was read in each commutation step. The
result gives a state the step with the most samples, if these are enough.
-/

namespace Bldc.Drive

open Flash Conf Foundation Command

/-- `WS2811_ENABLE`. -/
def ws2811Enable : Bool := false

/-- The columns of `hall_detect_table` that are read. -/
def hallColumns : List (Fin 7) := [1, 2, 3, 4, 5, 6]

/-- `res` after the columns of a hall state, of which `samples` are the most so far. -/
def detectedStep (row : Fin 7 → Int) : Int :=
  (hallColumns.foldl (scanStep row 15 fun j => (j.val : Int)) (0, -1)).2

/-- `invalid_samp_num`, and `nums` with `tot_nums`. -/
structure HallCount where
  invalidSampNum : Nat
  nums : Tally Int

def HallCount.add (count : HallCount) (res : Int) : HallCount :=
  if res = -1 then { count with invalidSampNum := count.invalidSampNum + 1 }
  else { count with nums := count.nums.add res }

/-- `table` after the first loop. -/
def detectedTable (hallDetectTable : Fin 8 → Fin 7 → Int) (i : Fin 8) : Byte :=
  BitVec.ofInt 8 (detectedStep (hallDetectTable i))

/-- The second loop. -/
def countHall (table : Fin 8 → Byte) (states : List (Fin 8)) : HallCount :=
  states.foldl (fun count i => count.add (table i).toInt) ⟨0, .empty⟩

/-- `mcpwm_get_hall_detect_result`, with what is in `table` afterwards. -/
def mcpwmGetHallDetectResult (c : McConfiguration) (hallDetectTable : Fin 8 → Fin 7 → Int)
    (table : Fin 8 → Byte) : Int × (Fin 8 → Byte) :=
  if ws2811Enable then (-2, table)
  else if c.mSensorPortMode ≠ sensorPortModeHall then (-3, table)
  else
    let table := detectedTable hallDetectTable
    let count := countHall table (List.finRange 8)
    (if count.invalidSampNum = 2 ∧ count.nums.total = 6 then 0 else -1, table)

section Detection

variable (hallDetectTable : Fin 8 → Fin 7 → Int)

/-- No column has enough samples. -/
def Silent (i : Fin 8) : Prop := ∀ j ∈ hallColumns, hallDetectTable i j ≤ 15

instance : DecidablePred (Silent hallDetectTable) := fun _ => List.decidableBAll _ _

/-- Two hall states are silent, and the others have their most samples in different columns. -/
structure FindsSix : Prop where
  silent : (Finset.univ.filter (Silent hallDetectTable)).card = 2
  distinct : ∀ i i' j, ¬Silent hallDetectTable i → ¬Silent hallDetectTable i' →
    IsFirstMax (hallDetectTable i) hallColumns j →
      IsFirstMax (hallDetectTable i') hallColumns j → i = i'

/-- The states that are not silent have the six steps between them. -/
structure Usable (phase : Fin 8 → Int) : Prop where
  bijOn : Set.BijOn phase {i | ¬Silent hallDetectTable i} (Set.Icc 1 6)
  silent : ∀ i, Silent hallDetectTable i → phase i = -1

end Detection

/-! ## One hall state -/

theorem scanned_row (row : Fin 7 → Int) :
    Scanned row 15 (fun j => (j.val : Int)) (-1) hallColumns
      (hallColumns.foldl (scanStep row 15 fun j => (j.val : Int)) (0, -1)) :=
  scanned_foldl (by decide) _ (by decide)

variable {hallDetectTable : Fin 8 → Fin 7 → Int} {i : Fin 8}

theorem detectedStep_silent (h : Silent hallDetectTable i) :
    detectedStep (hallDetectTable i) = -1 := by
  by_contra hne
  have hscanned := scanned_row (hallDetectTable i)
  have hhigh := not_le.1 fun hlow => hne (hscanned.low hlow)
  obtain ⟨j, hfirst, hvalue, -⟩ := hscanned.high hhigh
  exact absurd (h j hfirst.mem) (not_le.2 (hvalue ▸ hhigh))

/-- A state that is not silent is given the first column with the most samples. -/
theorem detectedStep_firstMax (h : ¬Silent hallDetectTable i) :
    ∃ j, IsFirstMax (hallDetectTable i) hallColumns j ∧
      detectedStep (hallDetectTable i) = (j.val : Int) := by
  have hscanned := scanned_row (hallDetectTable i)
  obtain ⟨j, hmem, hmore⟩ : ∃ j ∈ hallColumns, 15 < hallDetectTable i j := by
    unfold Silent at h
    push Not at h
    exact h
  obtain ⟨first, hfirst, -, hmark⟩ := hscanned.high (hmore.trans_le (hscanned.le j hmem))
  exact ⟨first, hfirst, hmark⟩

theorem detectedStep_mem (h : ¬Silent hallDetectTable i) :
    detectedStep (hallDetectTable i) ∈ Set.Icc 1 6 := by
  obtain ⟨j, hfirst, hstep⟩ := detectedStep_firstMax h
  rw [hstep]
  have hmem := hfirst.mem
  clear hstep hfirst
  revert j
  decide

theorem silent_iff : detectedStep (hallDetectTable i) = -1 ↔ Silent hallDetectTable i := by
  refine ⟨fun heq => ?_, detectedStep_silent⟩
  by_contra h
  have hmem := detectedStep_mem h
  rw [heq] at hmem
  exact absurd hmem.1 (by decide)

/-- The steps fit in the table. -/
theorem toInt_detectedTable (i : Fin 8) :
    (detectedTable hallDetectTable i).toInt = detectedStep (hallDetectTable i) := by
  have hrange : detectedStep (hallDetectTable i) = -1 ∨
      detectedStep (hallDetectTable i) ∈ Set.Icc 1 6 :=
    (em (Silent hallDetectTable i)).imp detectedStep_silent detectedStep_mem
  rw [detectedTable, BitVec.toInt_ofInt]
  apply Int.bmod_eq_of_le
  · rcases hrange with heq | ⟨hone, -⟩ <;> omega
  · rcases hrange with heq | ⟨-, hsix⟩ <;> omega

/-! ## All states -/

/-- What has been counted after the states. -/
structure HallCount.Covers (count : HallCount) (table : Fin 8 → Byte) (states : List (Fin 8)) :
    Prop where
  invalidSampNum :
    count.invalidSampNum = (states.toFinset.filter fun i => (table i).toInt = -1).card
  nums : count.nums.Counts ((states.map fun i => (table i).toInt).filter (· ≠ -1))

theorem HallCount.Covers.add {count : HallCount} {table : Fin 8 → Byte} {states : List (Fin 8)}
    (h : count.Covers table states) (hnew : i ∉ states) :
    (count.add (table i).toInt).Covers table (states ++ [i]) := by
  have hunion : (states ++ [i]).toFinset = insert i states.toFinset := by
    ext j
    simp
  unfold HallCount.add
  split
  next hinvalid =>
    refine ⟨?_, ?_⟩
    · rw [hunion, Finset.filter_insert, if_pos hinvalid, Finset.card_insert_of_notMem,
        h.invalidSampNum]
      simp [hnew]
    · simpa [hinvalid] using h.nums
  next hvalid =>
    refine ⟨?_, ?_⟩
    · rw [hunion, Finset.filter_insert, if_neg hvalid, h.invalidSampNum]
    · simpa [hvalid] using h.nums.add (table i).toInt

theorem covers_countHall (table : Fin 8 → Byte) {states : List (Fin 8)} (hnodup : states.Nodup) :
    (countHall table states).Covers table states := by
  induction states using List.reverseRecOn with
  | nil => exact ⟨rfl, Tally.counts_empty⟩
  | append_singleton states i ih =>
      rw [List.nodup_append] at hnodup
      rw [countHall, List.foldl_append]
      exact (ih hnodup.1).add fun hmem => hnodup.2.2 i hmem i (by simp) rfl

/-- The states that are not silent. -/
def heard (hallDetectTable : Fin 8 → Fin 7 → Int) : Finset (Fin 8) :=
  Finset.univ.filter fun i => ¬Silent hallDetectTable i

theorem counted (hallDetectTable : Fin 8 → Fin 7 → Int) :
    (countHall (detectedTable hallDetectTable) (List.finRange 8)).invalidSampNum =
        (Finset.univ.filter (Silent hallDetectTable)).card ∧
      (countHall (detectedTable hallDetectTable) (List.finRange 8)).nums.total =
        ((heard hallDetectTable).image fun i => detectedStep (hallDetectTable i)).card := by
  have hcovers := covers_countHall (detectedTable hallDetectTable) (List.nodup_finRange 8)
  constructor
  · rw [hcovers.invalidSampNum]
    congr 1
    ext i
    simp [toInt_detectedTable, silent_iff]
  · rw [hcovers.nums.total]
    congr 1
    ext step
    simp only [toInt_detectedTable, heard, List.mem_toFinset, List.mem_filter, List.mem_map,
      Finset.mem_image, Finset.mem_filter, ← silent_iff, decide_eq_true_iff]
    constructor
    · rintro ⟨⟨i, -, rfl⟩, hvalid⟩
      exact ⟨i, ⟨Finset.mem_univ i, hvalid⟩, rfl⟩
    · rintro ⟨i, ⟨-, hvalid⟩, rfl⟩
      exact ⟨⟨i, List.mem_finRange i, rfl⟩, hvalid⟩

theorem silent_card_add_heard (hallDetectTable : Fin 8 → Fin 7 → Int) :
    (Finset.univ.filter (Silent hallDetectTable)).card + (heard hallDetectTable).card = 8 :=
  Finset.card_filter_add_card_filter_not _

/-- The steps are different exactly if the columns are. -/
theorem injOn_detectedStep_iff :
    Set.InjOn (fun i => detectedStep (hallDetectTable i)) (heard hallDetectTable) ↔
      ∀ i i' j, ¬Silent hallDetectTable i → ¬Silent hallDetectTable i' →
        IsFirstMax (hallDetectTable i) hallColumns j →
          IsFirstMax (hallDetectTable i') hallColumns j → i = i' := by
  simp only [heard, Finset.coe_filter, Finset.mem_univ, true_and]
  constructor
  · intro hinj i i' j hi hi' hfirst hfirst'
    obtain ⟨k, hk, hstep⟩ := detectedStep_firstMax hi
    obtain ⟨k', hk', hstep'⟩ := detectedStep_firstMax hi'
    refine hinj hi hi' ?_
    dsimp only
    rw [hstep, hstep', hk.unique hfirst, hk'.unique hfirst']
  · intro hdistinct i hi i' hi' heq
    obtain ⟨k, hk, hstep⟩ := detectedStep_firstMax hi
    obtain ⟨k', hk', hstep'⟩ := detectedStep_firstMax hi'
    dsimp only at heq
    rw [hstep, hstep', Nat.cast_inj, Fin.val_inj] at heq
    subst heq
    exact hdistinct i i' k hi hi' hk hk'

theorem result_of_hall {c : McConfiguration} (hmode : c.mSensorPortMode = sensorPortModeHall)
    (table : Fin 8 → Byte) :
    mcpwmGetHallDetectResult c hallDetectTable table =
      let count := countHall (detectedTable hallDetectTable) (List.finRange 8)
      (if count.invalidSampNum = 2 ∧ count.nums.total = 6 then 0 else -1,
        detectedTable hallDetectTable) := by
  rw [mcpwmGetHallDetectResult, if_neg (by decide), if_neg (not_not.2 hmode)]

theorem result_eq_zero_iff {c : McConfiguration} (hmode : c.mSensorPortMode = sensorPortModeHall)
    (table : Fin 8 → Byte) :
    (mcpwmGetHallDetectResult c hallDetectTable table).1 = 0 ↔ FindsSix hallDetectTable := by
  obtain ⟨hinvalid, htotal⟩ := counted hallDetectTable
  have hcards := silent_card_add_heard hallDetectTable
  have hreturn : (mcpwmGetHallDetectResult c hallDetectTable table).1 = 0 ↔
      (Finset.univ.filter (Silent hallDetectTable)).card = 2 ∧
        ((heard hallDetectTable).image fun i => detectedStep (hallDetectTable i)).card = 6 := by
    rw [result_of_hall hmode, ← hinvalid, ← htotal]
    dsimp only
    split
    next h => exact iff_of_true rfl h
    next h => exact iff_of_false (by decide) h
  rw [hreturn]
  constructor
  · rintro ⟨hsilent, hsteps⟩
    refine ⟨hsilent, injOn_detectedStep_iff.1 (Finset.card_image_iff.1 ?_)⟩
    omega
  · intro h
    have hsteps := Finset.card_image_iff.2 (injOn_detectedStep_iff.2 h.distinct)
    have hsilent := h.silent
    exact ⟨hsilent, by omega⟩

theorem coe_heard (hallDetectTable : Fin 8 → Fin 7 → Int) :
    (heard hallDetectTable : Set (Fin 8)) = {i | ¬Silent hallDetectTable i} := by
  simp [heard]

/-- Six different steps are all steps. -/
theorem FindsSix.bijOn (h : FindsSix hallDetectTable) :
    Set.BijOn (fun i => detectedStep (hallDetectTable i))
      {i | ¬Silent hallDetectTable i} (Set.Icc 1 6) := by
  have hinj := injOn_detectedStep_iff.2 h.distinct
  have hall : (heard hallDetectTable).image (fun i => detectedStep (hallDetectTable i)) =
      Finset.Icc 1 6 := by
    apply Finset.eq_of_subset_of_card_le
    · intro step hstep
      obtain ⟨i, hi, rfl⟩ := Finset.mem_image.1 hstep
      exact Finset.mem_Icc.2 (detectedStep_mem (Finset.mem_filter.1 hi).2)
    · have hcards := silent_card_add_heard hallDetectTable
      have hsix : (Finset.Icc (1 : Int) 6).card = 6 := by decide
      have hsilent := h.silent
      rw [hsix, Finset.card_image_iff.2 hinj]
      omega
  have hbijOn := hinj.bijOn_image
  rwa [← Finset.coe_image, hall, Finset.coe_Icc, coe_heard] at hbijOn

/-! ## The installed table -/

theorem fwdToRev_eq (stray : Int → Int) {step : Int} (h : step ∈ Set.Icc 1 6) :
    fwdToRev stray step = if step = 1 then 1 else 8 - step := by
  obtain ⟨hone, hsix⟩ := h
  interval_cases step <;> rfl

theorem fwdToRev_mem (stray : Int → Int) :
    Set.MapsTo (fwdToRev stray) (Set.Icc 1 6) (Set.Icc 1 6) := by
  intro step h
  rw [fwdToRev_eq stray h, Set.mem_Icc]
  obtain ⟨hone, hsix⟩ := h
  split <;> omega

/-- The steps backwards, twice, are the steps. -/
theorem fwdToRev_fwdToRev (stray : Int → Int) :
    Set.LeftInvOn (fwdToRev stray) (fwdToRev stray) (Set.Icc 1 6) := by
  intro step h
  rw [fwdToRev_eq stray (fwdToRev_mem stray h), fwdToRev_eq stray h]
  obtain ⟨hone, hsix⟩ := h
  split_ifs <;> omega

theorem fwdToRev_bijOn (stray : Int → Int) :
    Set.BijOn (fwdToRev stray) (Set.Icc 1 6) (Set.Icc 1 6) :=
  Set.InvOn.bijOn ⟨fwdToRev_fwdToRev stray, fwdToRev_fwdToRev stray⟩ (fwdToRev_mem stray)
    (fwdToRev_mem stray)

/-- What a half of `hall_to_phase_table` has for a state, by the step that was detected. -/
theorem hallToPhaseTable_detectedTable (s : Commutator) (stray : Int → Int) (forward : Bool) :
    (s.mcpwmInitHallTable (detectedTable hallDetectTable) stray).1.hallToPhaseTable forward i =
      if forward ∨ Silent hallDetectTable i then detectedStep (hallDetectTable i)
      else fwdToRev stray (detectedStep (hallDetectTable i)) := by
  have hsilent : detectedStep (hallDetectTable i) < 1 ↔ Silent hallDetectTable i := by
    refine ⟨fun hlow => ?_, fun h => by rw [detectedStep_silent h]; decide⟩
    by_contra h
    exact absurd (detectedStep_mem h).1 (not_le.2 hlow)
  simp only [Commutator.mcpwmInitHallTable, toInt_detectedTable, hsilent]

theorem FindsSix.usable (h : FindsSix hallDetectTable) (s : Commutator) (stray : Int → Int)
    (forward : Bool) :
    Usable hallDetectTable
      ((s.mcpwmInitHallTable (detectedTable hallDetectTable) stray).1.hallToPhaseTable
        forward) := by
  refine ⟨?_, fun i hi => ?_⟩
  · cases forward with
    | true =>
        refine h.bijOn.congr fun i _ => ?_
        rw [hallToPhaseTable_detectedTable, if_pos (.inl rfl)]
    | false =>
        refine ((fwdToRev_bijOn stray).comp h.bijOn).congr fun i hi => ?_
        rw [hallToPhaseTable_detectedTable, if_neg (not_or.2 ⟨Bool.false_ne_true, hi⟩)]
        rfl
  · rw [hallToPhaseTable_detectedTable, if_pos (.inr hi), detectedStep_silent hi]

/-- A detection with hall sensors reports success exactly if it finds six steps. Then the
result, once it is installed, is usable in both directions. -/
theorem hallDetectResult_usable {c : McConfiguration}
    (hmode : c.mSensorPortMode = sensorPortModeHall) (hallDetectTable : Fin 8 → Fin 7 → Int)
    (table : Fin 8 → Byte) :
    let result := mcpwmGetHallDetectResult c hallDetectTable table
    (result.1 = 0 ↔ FindsSix hallDetectTable) ∧
      (result.1 = 0 → ∀ (s : Commutator) (stray : Int → Int) (forward : Bool),
        Usable hallDetectTable
          ((s.mcpwmInitHallTable result.2 stray).1.hallToPhaseTable forward)) := by
  have hzero_iff : (mcpwmGetHallDetectResult c hallDetectTable table).1 = 0 ↔
      FindsSix hallDetectTable := result_eq_zero_iff hmode table
  refine ⟨hzero_iff, fun hzero s stray forward => ?_⟩
  rw [result_of_hall hmode]
  exact (hzero_iff.1 hzero).usable s stray forward

/-- Twenty samples of every hall state but the first and the last, each in its own step, and
some in another. -/
def turnedOnce (i : Fin 8) (j : Fin 7) : Int :=
  if i.val = j.val then 20 else if i.val = 0 ∨ i.val = 7 then 15 else if j.val = 4 then 16 else 3

theorem hallDetectResult_usable_turnedOnce :
    (mcpwmGetHallDetectResult hallConfiguration turnedOnce fun _ => 0).1 = 0 ∧
      Usable turnedOnce ((idleCommutator.mcpwmInitHallTable (mcpwmGetHallDetectResult
        hallConfiguration turnedOnce fun _ => 0).2 id).1.hallToPhaseTable false) := by
  have hzero : (mcpwmGetHallDetectResult hallConfiguration turnedOnce fun _ => 0).1 = 0 := by
    decide +kernel
  exact ⟨hzero, (hallDetectResult_usable rfl turnedOnce fun _ => 0).2 hzero _ _ _⟩

end Bldc.Drive
