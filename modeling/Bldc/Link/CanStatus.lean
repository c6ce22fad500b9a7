import Bldc.Foundation.Slots
import Bldc.Link.Can

/-!
# The table of status messages

Other controllers send their status over CAN, and `cancom_process_thread` keeps the latest
message of each in a table of ten slots. The first ten controllers that are heard keep
their slots; the others are never stored.
-/

namespace Bldc.Link

open Foundation Flash

/-- `comm_can_get_status_msg_id`: the slot that the pointer leads to. -/
def commCanGetStatusMsgId (statMsgs : List CanStatusMsg) (id : Int) : Option Nat :=
  statMsgs.findIdx? fun msg => msg.id = id

/-- The status message in a frame, as `cancom_process_thread` decodes it. -/
def Arrival.statusMsg (arrival : Arrival) : Option CanStatusMsg :=
  if arrival.rxmsg.ide ∧ arrival.rxmsg.cmd = some .status then
    some
      { id := arrival.rxmsg.id.toNat
        rxTime := arrival.rxTime
        rpm := bufferGetInt32 arrival.rxmsg.data8 0
        current := (bufferGetInt16 arrival.rxmsg.data8 4 : Rat) / 10
        duty := (bufferGetInt16 arrival.rxmsg.data8 6 : Rat) / 1000 }
  else none

/-- The status messages that have come in. -/
def statusMsgs (arrivals : List Arrival) : List CanStatusMsg :=
  arrivals.filterMap Arrival.statusMsg

/-- The first ids that are seen, as many as there are slots. -/
def storedIds (arrivals : List Arrival) : List Int :=
  (firstKeys CanStatusMsg.id (statusMsgs arrivals)).take canStatusMsgsToStore

/-- The table after these frames, from `comm_can_init` on. -/
def CanState.statusTable (s : CanState) (arrivals : List Arrival) : List CanStatusMsg :=
  (cancomProcess.run (commCanInit s) arrivals).1.statMsgs

/-- The table is a map from the first ids that were seen to their latest messages. -/
structure IsStatusMap (s : CanState) (arrivals : List Arrival) : Prop where
  distinct : ((s.statusTable arrivals).filter fun slot => slot.id ≠ -1).Pairwise
    fun slot slot' => slot.id ≠ slot'.id
  suffix : ∃ used unused, s.statusTable arrivals = used ++ unused ∧
    (∀ slot ∈ used, slot.id ≠ -1) ∧ ∀ slot ∈ unused, slot.id = -1
  keeps : ∀ (i : Nat) (id : Int), (storedIds arrivals)[i]? = some id → ∀ later,
    ((s.statusTable (arrivals ++ later))[i]?).map CanStatusMsg.id = some id
  fresh : ∀ slot ∈ s.statusTable arrivals, slot.id ≠ -1 →
    latestItem CanStatusMsg.id (statusMsgs arrivals) slot.id = some slot
  get : ∀ id : Int, 0 ≤ id → id ≤ 255 →
    commCanGetStatusMsgId (s.statusTable arrivals) id =
      if id ∈ storedIds arrivals then some ((storedIds arrivals).idxOf id) else none

theorem recordStatus_eq (msg : CanStatusMsg) (statMsgs : List CanStatusMsg) :
    recordStatus msg statMsgs = scanSlots CanStatusMsg.id (-1) msg statMsgs := by
  induction statMsgs with
  | nil => rfl
  | cons slot rest ih => rw [recordStatus, scanSlots, ih]

theorem Arrival.statusMsg_id {arrival : Arrival} {msg : CanStatusMsg}
    (h : arrival.statusMsg = some msg) : msg.id ≠ -1 := by
  unfold statusMsg at h
  split at h
  next =>
    obtain rfl := Option.some.inj h
    dsimp only
    omega
  next => cases h

theorem statusMsgs_id (arrivals : List Arrival) : ∀ msg ∈ statusMsgs arrivals, msg.id ≠ -1 := by
  intro msg hmsg
  obtain ⟨arrival, -, harrival⟩ := List.mem_filterMap.1 hmsg
  exact Arrival.statusMsg_id harrival

theorem processAddressed_statMsgs (s : CanState) (rxmsg : CanRxFrame) :
    (s.processAddressed rxmsg).1.statMsgs = s.statMsgs := by
  unfold CanState.processAddressed motorCommand CanState.processRxBuffer
    CanState.processShortBuffer CanState.hand
  dsimp only
  repeat' split
  all_goals rfl

theorem processStatus_statMsgs (s : CanState) (arrival : Arrival) (hide : arrival.rxmsg.ide) :
    (s.processStatus arrival.rxTime arrival.rxmsg).statMsgs =
      (arrival.statusMsg.elim s.statMsgs fun msg => recordStatus msg s.statMsgs) := by
  unfold CanState.processStatus Arrival.statusMsg
  split
  next hcmd => rw [if_pos ⟨hide, hcmd⟩]; rfl
  next hcmd => rw [if_neg fun h => hcmd h.2]; rfl

/-- A frame with a status message changes the table, and no other frame does. -/
theorem step_statMsgs (s : CanState) (arrival : Arrival) :
    (cancomProcess.step s arrival).1.statMsgs =
      (arrival.statusMsg.elim s.statMsgs fun msg => recordStatus msg s.statMsgs) := by
  by_cases hide : arrival.rxmsg.ide
  · simp only [cancomProcess, hide, if_true]
    rw [processStatus_statMsgs _ _ hide]
    split
    next => rw [processAddressed_statMsgs]
    next => rfl
  · have hnone : arrival.statusMsg = none := if_neg fun h => hide h.1
    simp only [cancomProcess, hide, hnone]
    rfl

theorem run_statMsgs (s : CanState) (arrivals : List Arrival) :
    (cancomProcess.run s arrivals).1.statMsgs =
      (statusMsgs arrivals).foldl (fun table msg => scanSlots CanStatusMsg.id (-1) msg table)
        s.statMsgs := by
  induction arrivals generalizing s with
  | nil => rfl
  | cons arrival arrivals ih =>
      rw [Machine.run_cons, statusMsgs]
      dsimp only
      rw [ih, step_statMsgs]
      cases harrival : arrival.statusMsg with
      | none => rw [List.filterMap_cons_none harrival]; rfl
      | some msg =>
          rw [List.filterMap_cons_some harrival, List.foldl_cons, ← recordStatus_eq]
          rfl

theorem storedIds_eq (arrivals : List Arrival) :
    (kept CanStatusMsg.id canStatusMsgsToStore (statusMsgs arrivals)).map CanStatusMsg.id =
      storedIds arrivals :=
  kept_map_key _ _ _

theorem storedIds_prefix (arrivals later : List Arrival) :
    storedIds arrivals <+: storedIds (arrivals ++ later) := by
  unfold storedIds statusMsgs
  rw [List.filterMap_append]
  exact (firstKeys_extends _ _ _).take _

/-- The slot of an id among slots of which each has another one. -/
theorem commCanGetStatusMsgId_eq (table : List CanStatusMsg) (id : Int) :
    commCanGetStatusMsgId table id =
      if id ∈ table.map CanStatusMsg.id then some ((table.map CanStatusMsg.id).idxOf id)
      else none := by
  have hmap : commCanGetStatusMsgId table id =
      (table.map CanStatusMsg.id).findIdx? fun i => i == id := by
    rw [List.findIdx?_map]
    rfl
  rw [hmap]
  split
  next hmem => exact List.findIdx?_eq_some_of_exists ⟨id, hmem, beq_self_eq_true id⟩
  next hmem =>
    refine List.findIdx?_eq_none_iff.2 fun i hi => ?_
    exact beq_false_of_ne fun heq => hmem (heq ▸ hi)

/-- From `comm_can_init` on, the table holds the latest message of each of the first ids in
the order in which they came, and behind them free slots. -/
theorem statusTable_filled {s : CanState} (hsize : s.statMsgs.length = canStatusMsgsToStore)
    (arrivals : List Arrival) :
    Filled CanStatusMsg.id (-1) canStatusMsgsToStore (s.statusTable arrivals)
      (kept CanStatusMsg.id canStatusMsgsToStore (statusMsgs arrivals)) := by
  have hfree : ∀ slot ∈ (commCanInit s).statMsgs, slot.id = -1 := by
    rintro slot hslot
    obtain ⟨old, -, rfl⟩ := List.mem_map.1 hslot
    rfl
  have hlength : (commCanInit s).statMsgs.length = canStatusMsgsToStore := by
    rw [← hsize]
    exact List.length_map _
  have hfilled := filled_foldl CanStatusMsg.id hfree (statusMsgs_id arrivals)
  rw [hlength, ← run_statMsgs] at hfilled
  exact hfilled

theorem statusTable_ids {s : CanState} (hsize : s.statMsgs.length = canStatusMsgsToStore)
    (arrivals : List Arrival) :
    ∃ unused, (s.statusTable arrivals).map CanStatusMsg.id = storedIds arrivals ++ unused ∧
      ∀ id ∈ unused, id = -1 := by
  obtain ⟨⟨unused, htable, hunused⟩, -, -⟩ := statusTable_filled hsize arrivals
  refine ⟨unused.map CanStatusMsg.id, ?_, List.forall_mem_map.2 hunused⟩
  rw [htable, List.map_append, storedIds_eq]

/-- A slot stays with its id. -/
theorem statusTable_keeps {s : CanState} (hsize : s.statMsgs.length = canStatusMsgsToStore)
    {arrivals : List Arrival} {i : Nat} {id : Int} (hid : (storedIds arrivals)[i]? = some id)
    (later : List Arrival) :
    ((s.statusTable (arrivals ++ later))[i]?).map CanStatusMsg.id = some id := by
  obtain ⟨unused, hids, -⟩ := statusTable_ids hsize (arrivals ++ later)
  obtain ⟨new, hlater⟩ := storedIds_prefix arrivals later
  obtain ⟨hlt, -⟩ := List.getElem?_eq_some_iff.1 hid
  rw [← List.getElem?_map, hids, ← hlater, List.append_assoc, List.getElem?_append_left hlt, hid]

theorem commCanGetStatusMsgId_statusTable {s : CanState}
    (hsize : s.statMsgs.length = canStatusMsgsToStore) (arrivals : List Arrival) {id : Int}
    (hlow : 0 ≤ id) :
    commCanGetStatusMsgId (s.statusTable arrivals) id =
      if id ∈ storedIds arrivals then some ((storedIds arrivals).idxOf id) else none := by
  obtain ⟨unused, hids, hunused⟩ := statusTable_ids hsize arrivals
  have hnone : id ∉ unused := by
    intro hmem
    rw [hunused id hmem] at hlow
    omega
  rw [commCanGetStatusMsgId_eq, hids]
  by_cases hmem : id ∈ storedIds arrivals
  · rw [if_pos (List.mem_append_left _ hmem), if_pos hmem, List.idxOf_append_of_mem hmem]
  · rw [if_neg (mt List.mem_append.1 (not_or.2 ⟨hmem, hnone⟩)), if_neg hmem]

/-- The table of status messages is a map from the first ten ids to their latest messages. -/
theorem statusTable_isStatusMap (s : CanState) (hsize : s.statMsgs.length = canStatusMsgsToStore)
    (arrivals : List Arrival) : IsStatusMap s arrivals := by
  obtain ⟨⟨unused, htable, hunused⟩, hused, -⟩ := statusTable_filled hsize arrivals
  constructor
  · rw [(statusTable_filled hsize arrivals).filter_eq]
    exact List.pairwise_map.1
      (kept_nodup CanStatusMsg.id canStatusMsgsToStore (statusMsgs arrivals))
  · exact ⟨_, unused, htable, hused, hunused⟩
  · exact fun i id hid later => statusTable_keeps hsize hid later
  · intro slot hslot hfree
    rw [htable, List.mem_append] at hslot
    exact latestItem_of_mem_kept _ (hslot.resolve_right fun h => hfree (hunused slot h))
  · exact fun id hlow _ => commCanGetStatusMsgId_statusTable hsize arrivals hlow

/-- The status of one controller, all zeros. -/
def statusFrame (id : Nat) : CanRxFrame := ⟨true, BitVec.ofNat 29 (9 * 256 + id), 8, fun _ => 0⟩

/-- Twelve controllers are heard, and then the fourth once more. -/
theorem statusTable_isStatusMap_twelve :
    storedIds ((List.range 12 ++ [3]).map fun id => ⟨id, statusFrame id⟩) =
        [0, 1, 2, 3, 4, 5, 6, 7, 8, 9] ∧
      IsStatusMap bootedCan ((List.range 12 ++ [3]).map fun id => ⟨id, statusFrame id⟩) :=
  ⟨by decide +kernel, statusTable_isStatusMap bootedCan (by decide) _⟩

end Bldc.Link
