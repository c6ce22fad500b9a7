import Mathlib.Data.List.GetD
import Bldc.Eeprom.Code
import Bldc.Foundation.Log

/-!
# Pages as logs

The slots of a page are read as a log of entries, a virtual address with the
value it was given. `Holds` says which log a page carries, `Blank` that a page is
erased, and the lemmas say what each flash operation does to both and what the
scanning loops compute on them.
-/

namespace Bldc.Eeprom

open Foundation Flash

abbrev Entry := Half × Half

/-- A slot that has not been written. -/
def blank : Entry := (erased, erased)

/-- Number of slots of a page, its header word apart. -/
def capacity : Nat := pageSize / 4 - 1

theorem pageSize_div : pageSize / 4 = capacity + 1 := rfl

def slotAddress (page : Page) (i : Nat) : Nat := page.base + 4 * i

/-- The `i`-th word of a page; slot 0 is the header. -/
def slot (flash : Memory) (page : Page) (i : Nat) : Entry :=
  (flash.half (slotAddress page i + 2), flash.half (slotAddress page i))

/-- Program both halves of a slot, the value first. -/
abbrev programSlot (flash : Memory) (page : Page) (i : Nat) (virtAddress data : Half) : Memory :=
  (flash.programHalfWord (slotAddress page i) data).programHalfWord (slotAddress page i + 2)
    virtAddress

/-- `page` has the given status and its slots hold `log`, oldest entry first. -/
structure Holds (flash : Memory) (page : Page) (status : Half) (log : List Entry) : Prop where
  status_eq : pageStatus flash page = status
  slot_eq : ∀ i < capacity, slot flash page (i + 1) = log.getD i blank
  length_le : log.length ≤ capacity
  not_blank : blank ∉ log

def Blank (flash : Memory) (page : Page) : Prop :=
  ∀ i ≤ capacity, slot flash page i = blank

@[simp] theorem Page.other_other (page : Page) : page.other.other = page := by
  cases page <;> rfl

theorem Page.other_ne (page : Page) : page.other ≠ page := by
  cases page <;> decide

theorem Page.eq_or_eq_other (page page' : Page) : page' = page ∨ page' = page.other := by
  cases page <;> cases page' <;> decide

theorem pageStatus_eq_slot (flash : Memory) (page : Page) :
    pageStatus flash page = (slot flash page 0).2 := rfl

theorem Blank.status {flash : Memory} {page : Page} (h : Blank flash page) :
    pageStatus flash page = erased := by
  rw [pageStatus_eq_slot, h 0 (Nat.zero_le _)]
  rfl

/-- Reading a page with no entries: a fresh header over blank slots. -/
theorem Blank.holds {flash : Memory} {page : Page} (h : Blank flash page) :
    Holds flash page erased [] where
  status_eq := h.status
  slot_eq i hi := h (i + 1) (Nat.succ_le_of_lt hi)
  length_le := Nat.zero_le _
  not_blank := List.not_mem_nil

/-! ## Slots and operations -/

theorem slotAddress_disjoint {page page' : Page} {i j : Nat} (hi : i ≤ capacity)
    (hj : j ≤ capacity) (hne : page ≠ page' ∨ i ≠ j) :
    slotAddress page i + 4 ≤ slotAddress page' j ∨
      slotAddress page' j + 4 ≤ slotAddress page i := by
  have hcap : capacity = 4095 := rfl
  rw [hcap] at hi hj
  rcases hne with hne | hne
  · cases page <;> cases page' <;>
      simp only [slotAddress, Page.base, eepromStartAddress, pageSize, ne_eq, not_true_eq_false]
        at hne ⊢ <;> omega
  · cases page <;> cases page' <;>
      simp only [slotAddress, Page.base, eepromStartAddress, pageSize] <;> omega

theorem slot_programHalfWord_of_ne (flash : Memory) {page page' : Page} {i j : Nat}
    {address : Nat} (data : Half) (hi : i ≤ capacity) (hj : j ≤ capacity)
    (hne : page ≠ page' ∨ i ≠ j)
    (haddress : address = slotAddress page' j ∨ address = slotAddress page' j + 2) :
    slot (flash.programHalfWord address data) page i = slot flash page i := by
  have hdisjoint := slotAddress_disjoint hi hj hne
  unfold slot
  rw [half_programHalfWord_of_ne _ _ (by omega), half_programHalfWord_of_ne _ _ (by omega)]

theorem slot_programStatus (flash : Memory) (page : Page) {page' : Page} {i : Nat} (mark : Half)
    (hpos : 0 < i) (hi : i ≤ capacity) :
    slot (flash.programHalfWord page.base mark) page' i = slot flash page' i :=
  slot_programHalfWord_of_ne flash mark hi (Nat.zero_le capacity)
    (Or.inr (Nat.ne_of_gt hpos)) (Or.inl rfl : page.base = slotAddress page 0 ∨ _)

theorem slot_programData (flash : Memory) (page : Page) (i : Nat) (data : Half) :
    slot (flash.programHalfWord (slotAddress page i) data) page i =
      ((slot flash page i).1, (slot flash page i).2 &&& data) := by
  unfold slot
  rw [half_programHalfWord_self, half_programHalfWord_of_ne _ _ (by omega)]

theorem slot_programAddress (flash : Memory) (page : Page) (i : Nat) (virtAddress : Half) :
    slot (flash.programHalfWord (slotAddress page i + 2) virtAddress) page i =
      ((slot flash page i).1 &&& virtAddress, (slot flash page i).2) := by
  unfold slot
  rw [half_programHalfWord_self, half_programHalfWord_of_ne _ _ (by omega)]

theorem slot_erase_self (flash : Memory) {page : Page} {i : Nat} (hi : i ≤ capacity) :
    slot (flash.eraseSector page.id) page i = blank := by
  have hcap : capacity = 4095 := rfl
  rw [hcap] at hi
  have hinside : flashAddr page.id ≤ slotAddress page i ∧
      slotAddress page i + 4 ≤ sectorEnd page.id := by
    cases page
    · change 0x08004000 ≤ 0x08004000 + 4 * i ∧ 0x08004000 + 4 * i + 4 ≤ 0x08008000
      omega
    · change 0x08008000 ≤ 0x08004000 + 0x4000 + 4 * i ∧ 0x08004000 + 0x4000 + 4 * i + 4 ≤ 0x0800C000
      omega
  unfold slot
  rw [half_eraseSector_of_mem _ (by omega) (by omega),
    half_eraseSector_of_mem _ (by omega) (by omega)]
  rfl

theorem slot_erase_other (flash : Memory) {page : Page} {i : Nat} (hi : i ≤ capacity) :
    slot (flash.eraseSector page.other.id) page i = slot flash page i := by
  have hcap : capacity = 4095 := rfl
  rw [hcap] at hi
  have houtside : slotAddress page i + 4 ≤ flashAddr page.other.id ∨
      sectorEnd page.other.id ≤ slotAddress page i := by
    cases page
    · left
      change 0x08004000 + 4 * i + 4 ≤ 0x08008000
      omega
    · right
      change 0x08008000 ≤ 0x08004000 + 0x4000 + 4 * i
      omega
  unfold slot
  rw [half_eraseSector_of_not_mem _ (by omega), half_eraseSector_of_not_mem _ (by omega)]

/-! ## Pages and operations -/

variable {flash : Memory} {page : Page} {status : Half} {log : List Entry}

/-- An entry of which only the value was programmed; a value of ones leaves the
slot blank. -/
def tear (log : List Entry) (data : Half) : List Entry :=
  if data = erased then log else log ++ [(erased, data)]

theorem erased_and (data : Half) : erased &&& data = data := by
  unfold erased
  exact BitVec.allOnes_and

theorem Holds.slot_next (h : Holds flash page status log) (hspace : log.length < capacity) :
    slot flash page (log.length + 1) = blank := by
  rw [h.slot_eq _ hspace, List.getD_eq_default _ _ (Nat.le_refl _)]

theorem getD_concat (log : List Entry) (entry : Entry) (i : Nat) :
    (log ++ [entry]).getD i blank = if i = log.length then entry else log.getD i blank := by
  rcases Nat.lt_trichotomy i log.length with h | h | h
  · rw [List.getD_append _ _ _ _ h, if_neg (by omega)]
  · subst h
    rw [List.getD_append_right _ _ _ _ (Nat.le_refl _), Nat.sub_self, if_pos rfl]
    rfl
  · rw [List.getD_eq_default _ _ (by simp; omega), if_neg (by omega),
      List.getD_eq_default _ _ (by omega)]

/-- Any change of the first blank slot alone appends the entry found there. -/
theorem Holds.concat {flash' : Memory} {entry : Entry} (h : Holds flash page status log)
    (hspace : log.length < capacity) (hentry : entry ≠ blank)
    (hnew : slot flash' page (log.length + 1) = entry)
    (hold : ∀ i ≤ capacity, i ≠ log.length + 1 → slot flash' page i = slot flash page i) :
    Holds flash' page status (log ++ [entry]) where
  status_eq := by
    rw [pageStatus_eq_slot, hold 0 (Nat.zero_le _) (by omega), ← pageStatus_eq_slot, h.status_eq]
  slot_eq i hi := by
    rw [getD_concat]
    split
    next heq => rw [heq, hnew]
    next hne => rw [hold (i + 1) (by omega) (by omega), h.slot_eq i hi]
  length_le := by
    rw [List.length_append]
    exact hspace
  not_blank := by
    rw [List.mem_append, List.mem_singleton, not_or]
    exact ⟨h.not_blank, fun heq => hentry heq.symm⟩

theorem Holds.congr {flash' : Memory} (h : Holds flash page status log)
    (heq : ∀ i ≤ capacity, slot flash' page i = slot flash page i) :
    Holds flash' page status log where
  status_eq := by
    rw [pageStatus_eq_slot, heq 0 (Nat.zero_le _), ← pageStatus_eq_slot, h.status_eq]
  slot_eq i hi := by rw [heq (i + 1) (by omega), h.slot_eq i hi]
  length_le := h.length_le
  not_blank := h.not_blank

theorem Blank.congr {flash' : Memory} (h : Blank flash page)
    (heq : ∀ i ≤ capacity, slot flash' page i = slot flash page i) : Blank flash' page :=
  fun i hi => (heq i hi).trans (h i hi)

/-- Programming one page does not reach the other. -/
theorem Holds.program_of_ne {page' : Page} (h : Holds flash page status log) (hne : page ≠ page')
    {j : Nat} (hj : j ≤ capacity) {address : Nat} (data : Half)
    (haddress : address = slotAddress page' j ∨ address = slotAddress page' j + 2) :
    Holds (flash.programHalfWord address data) page status log :=
  h.congr fun _ hi => slot_programHalfWord_of_ne flash data hi hj (Or.inl hne) haddress

theorem Blank.program_of_ne {page' : Page} (h : Blank flash page) (hne : page ≠ page')
    {j : Nat} (hj : j ≤ capacity) {address : Nat} (data : Half)
    (haddress : address = slotAddress page' j ∨ address = slotAddress page' j + 2) :
    Blank (flash.programHalfWord address data) page :=
  h.congr fun _ hi => slot_programHalfWord_of_ne flash data hi hj (Or.inl hne) haddress

theorem Holds.erase_other (h : Holds flash page status log) :
    Holds (flash.eraseSector page.other.id) page status log :=
  h.congr fun _ hi => slot_erase_other flash hi

theorem Holds.programData (h : Holds flash page status log) (hspace : log.length < capacity)
    (data : Half) :
    Holds (flash.programHalfWord (slotAddress page (log.length + 1)) data) page status
      (tear log data) := by
  have hslot := slot_programData flash page (log.length + 1) data
  have hold : ∀ i ≤ capacity, i ≠ log.length + 1 →
      slot (flash.programHalfWord (slotAddress page (log.length + 1)) data) page i =
        slot flash page i := fun i hi hne =>
    slot_programHalfWord_of_ne flash data hi hspace (Or.inr hne) (Or.inl rfl)
  rw [h.slot_next hspace, show (blank.1, blank.2 &&& data) = (erased, data) from
    congrArg _ (erased_and data)] at hslot
  unfold tear
  split
  next hdata =>
      refine h.congr fun i hi => ?_
      by_cases hne : i = log.length + 1
      · rw [hne, hslot, hdata, h.slot_next hspace]
        rfl
      · exact hold i hi hne
  next hdata =>
      exact h.concat hspace (fun heq => hdata (congrArg Prod.snd heq)) hslot hold

theorem Holds.programEntry (h : Holds flash page status log) (hspace : log.length < capacity)
    {virtAddress : Half} (hvirt : virtAddress ≠ erased) (data : Half) :
    Holds (programSlot flash page (log.length + 1) virtAddress data) page status
      (log ++ [(virtAddress, data)]) := by
  refine h.concat hspace (fun heq => hvirt (congrArg Prod.fst heq)) ?_ fun i hi hne => ?_
  · rw [slot_programAddress, slot_programData, h.slot_next hspace]
    exact Prod.ext (erased_and virtAddress) (erased_and data)
  · rw [slot_programHalfWord_of_ne _ _ hi hspace (Or.inr hne) (Or.inr rfl),
      slot_programHalfWord_of_ne _ _ hi hspace (Or.inr hne) (Or.inl rfl)]

/-- Programming the header only touches the status. -/
theorem Holds.programStatus (h : Holds flash page status log) (mark : Half) :
    Holds (flash.programHalfWord page.base mark) page (status &&& mark) log where
  status_eq := by
    have hself := half_programHalfWord_self flash page.base mark
    rw [show flash.half page.base = status from h.status_eq] at hself
    exact hself
  slot_eq i hi := by
    rw [slot_programStatus flash page mark (Nat.succ_pos i) hi, h.slot_eq i hi]
  length_le := h.length_le
  not_blank := h.not_blank

theorem blank_erase (flash : Memory) (page : Page) : Blank (flash.eraseSector page.id) page :=
  fun _ hi => slot_erase_self flash hi

/-! ## The scanning loops -/

theorem readLoop_eq_latest (flash : Memory) (page : Page) (virtAddress : Half) (count : Nat) :
    readLoop flash page.base virtAddress count =
      latest virtAddress ((List.range count).map fun i => slot flash page (i + 1)) := by
  induction count with
  | zero => rfl
  | succ count ih =>
      rw [List.range_succ, List.map_append, List.map_singleton, latest_concat, ← ih]
      have haddress : page.base + 2 + 4 * (count + 1) = slotAddress page (count + 1) + 2 := by
        unfold slotAddress
        omega
      simp only [Eeprom.readLoop, haddress, Nat.add_sub_cancel]
      rfl

theorem Holds.slots_eq (h : Holds flash page status log) :
    (List.range capacity).map (fun i => slot flash page (i + 1)) =
      log ++ List.replicate (capacity - log.length) blank := by
  have hlength := h.length_le
  apply List.ext_getElem
  · simp
    omega
  · intro i hi hi'
    rw [List.length_map, List.length_range] at hi
    rw [List.getElem_map, List.getElem_range, h.slot_eq i hi]
    by_cases hlt : i < log.length
    · rw [List.getElem_append_left hlt, List.getD_eq_getElem _ _ hlt]
    · rw [List.getElem_append_right (by omega), List.getElem_replicate,
        List.getD_eq_default _ _ (by omega)]

/-- Scanning a page from its end finds the latest entry of a variable. -/
theorem Holds.readLoop (h : Holds flash page status log) {virtAddress : Half}
    (hvirt : virtAddress ≠ erased) :
    readLoop flash page.base virtAddress (pageSize / 4 - 1) = latest virtAddress log := by
  rw [readLoop_eq_latest, show pageSize / 4 - 1 = capacity from rfl, h.slots_eq]
  exact latest_append_replicate _ _ fun heq => hvirt heq.symm

theorem word_eq_ones_iff_slot (flash : Memory) (page : Page) (i : Nat) :
    flash.word (slotAddress page i) = 0xFFFFFFFF ↔ slot flash page i = blank := by
  rw [word_eq_ones_iff, and_comm, Prod.ext_iff]
  exact Iff.rfl

theorem writeLoop_eq_some (flash : Memory) {k : Nat} :
    ∀ {count address : Nat}, k < count → flash.word (address + 4 * k) = 0xFFFFFFFF →
      (∀ j < k, flash.word (address + 4 * j) ≠ 0xFFFFFFFF) →
      writeLoop flash count address = some (address + 4 * k) := by
  induction k with
  | zero =>
      intro count address hcount hblank _
      obtain ⟨count, rfl⟩ := Nat.exists_eq_succ_of_ne_zero (Nat.ne_of_gt hcount)
      exact if_pos hblank
  | succ k ih =>
      intro count address hcount hblank hused
      obtain ⟨count, rfl⟩ := Nat.exists_eq_succ_of_ne_zero (by omega : count ≠ 0)
      have hfirst : flash.word address ≠ 0xFFFFFFFF := hused 0 (Nat.succ_pos k)
      have hshift : ∀ j, address + 4 + 4 * j = address + 4 * (j + 1) := fun j => by omega
      have hrest : Eeprom.writeLoop flash count (address + 4) = some (address + 4 + 4 * k) := by
        refine ih (by omega) ?_ fun j hj => ?_
        · rw [hshift]
          exact hblank
        · rw [hshift]
          exact hused (j + 1) (by omega)
      rw [Eeprom.writeLoop, if_neg hfirst, hrest, hshift]

theorem writeLoop_eq_none (flash : Memory) :
    ∀ {count address : Nat}, (∀ j < count, flash.word (address + 4 * j) ≠ 0xFFFFFFFF) →
      writeLoop flash count address = none := by
  intro count
  induction count with
  | zero => exact fun _ => rfl
  | succ count ih =>
      intro address hused
      have hfirst : flash.word address ≠ 0xFFFFFFFF := hused 0 (Nat.succ_pos count)
      rw [Eeprom.writeLoop, if_neg hfirst]
      refine ih fun j hj => ?_
      rw [show address + 4 + 4 * j = address + 4 * (j + 1) by omega]
      exact hused (j + 1) (by omega)

theorem writeLoop_blank (flash : Memory) {count address found : Nat}
    (h : writeLoop flash count address = some found) :
    ∃ k < count, found = address + 4 * k ∧ flash.word found = 0xFFFFFFFF := by
  induction count generalizing address with
  | zero => cases h
  | succ count ih =>
      rw [Eeprom.writeLoop] at h
      split at h
      next hblank =>
          cases h
          exact ⟨0, Nat.succ_pos count, rfl, hblank⟩
      next =>
          obtain ⟨k, hk, hfound, hblank⟩ := ih h
          exact ⟨k + 1, by omega, by omega, hblank⟩

theorem Holds.word_ne (h : Holds flash page status log) (hstatus : status ≠ erased) {j : Nat}
    (hj : j ≤ log.length) : flash.word (page.base + 4 * j) ≠ 0xFFFFFFFF := by
  have hlength := h.length_le
  intro hones
  have hblank := (word_eq_ones_iff_slot flash page j).1 hones
  cases j with
  | zero =>
      have heq := h.status_eq
      rw [pageStatus_eq_slot, hblank] at heq
      exact hstatus heq.symm
  | succ i =>
      rw [h.slot_eq i (by omega), List.getD_eq_getElem _ _ hj] at hblank
      exact h.not_blank (hblank ▸ List.getElem_mem hj)

/-- Scanning a page from its start finds the slot after the log. -/
theorem Holds.writeLoop (h : Holds flash page status log) (hstatus : status ≠ erased) :
    writeLoop flash (pageSize / 4) page.base =
      if log.length < capacity then some (slotAddress page (log.length + 1)) else none := by
  rw [pageSize_div]
  split
  next hspace =>
      refine writeLoop_eq_some flash (by omega) ?_ fun j hj => h.word_ne hstatus (by omega)
      exact (word_eq_ones_iff_slot flash page _).2 (h.slot_next hspace)
  next hfull =>
      have hlength := h.length_le
      exact writeLoop_eq_none flash fun j hj => h.word_ne hstatus (by omega)

theorem emptyLoop_iff (flash : Memory) (count address : Nat) :
    emptyLoop flash count address = true ↔ ∀ i < count, flash (address + i) = 0xFF := by
  induction count generalizing address with
  | zero => simp [emptyLoop]
  | succ count ih =>
      have hshift : ∀ i, address + 1 + i = address + (i + 1) := fun i => by omega
      rw [Nat.forall_lt_succ_left, emptyLoop]
      split
      next hused => exact ⟨fun h => absurd h (by decide), fun h => absurd h.1 hused⟩
      next hblank =>
          rw [ih]
          simp only [hshift]
          exact ⟨fun h => ⟨not_not.1 hblank, h⟩, fun h => h.2⟩

theorem blank_of_emptyLoop
    (h : emptyLoop flash pageSize (getSectorAddress page.id) = true) : Blank flash page := by
  rw [emptyLoop_iff] at h
  have hcap : capacity = 4095 := rfl
  have hsize : pageSize = 16384 := rfl
  have hbase : getSectorAddress page.id = page.base := by cases page <;> rfl
  have hhalf : ∀ i < pageSize - 1, flash.half (page.base + i) = erased := by
    intro i hi
    unfold Memory.half
    rw [Nat.add_assoc, ← hbase, h i (by omega), h (i + 1) (by omega)]
    rfl
  intro i hi
  unfold slot slotAddress
  rw [Nat.add_assoc, hhalf (4 * i + 2) (by omega), hhalf (4 * i) (by omega)]
  rfl

theorem Blank.bytes (h : Blank flash page) {i : Nat} (hi : i < pageSize) :
    flash (page.base + i) = 0xFF := by
  have hcap : capacity = 4095 := rfl
  have hsize : pageSize = 16384 := rfl
  have hslot := h (i / 4) (by omega)
  have hlow := byte_eq_ones_of_half flash _ (congrArg Prod.snd hslot)
  have hhigh := byte_eq_ones_of_half flash _ (congrArg Prod.fst hslot)
  unfold slotAddress at hlow hhigh
  rcases (by omega : i % 4 = 0 ∨ i % 4 = 1 ∨ i % 4 = 2 ∨ i % 4 = 3) with h | h | h | h
  · rw [show page.base + i = page.base + 4 * (i / 4) by omega, hlow.1]
  · rw [show page.base + i = page.base + 4 * (i / 4) + 1 by omega, hlow.2]
  · rw [show page.base + i = page.base + 4 * (i / 4) + 2 by omega, hhigh.1]
  · rw [show page.base + i = page.base + 4 * (i / 4) + 2 + 1 by omega, hhigh.2]

/-! ## Finding the active page -/

theorem eeFindValidPage_read (hvalid : pageStatus flash page = validPage)
    (hother : pageStatus flash page.other ≠ validPage) :
    eeFindValidPage flash .readFromValidPage = some page := by
  cases page <;> simp_all [eeFindValidPage, Page.other]

/-- The page found for writing has a header. -/
theorem eeFindValidPage_write_status
    (h : eeFindValidPage flash .writeInValidPage = some page) : pageStatus flash page ≠ erased := by
  intro herased
  cases page <;> simp only [eeFindValidPage] at h <;>
    split_ifs at h <;> simp_all [erased, validPage, receiveData]

theorem eeFindValidPage_write (hvalid : pageStatus flash page = validPage)
    (hother : pageStatus flash page.other = erased) :
    eeFindValidPage flash .writeInValidPage = some page := by
  cases page <;>
    simp_all [eeFindValidPage, Page.other, validPage, erased, receiveData]

theorem eeFindValidPage_receiving (hvalid : pageStatus flash page = validPage)
    (hother : pageStatus flash page.other = receiveData) :
    eeFindValidPage flash .writeInValidPage = some page.other := by
  cases page <;>
    simp_all [eeFindValidPage, Page.other, validPage, receiveData]

end Bldc.Eeprom
