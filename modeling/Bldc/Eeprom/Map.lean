import Bldc.Conf.Layout
import Bldc.Eeprom.Transfer

/-!
# The log as a finite map

With every flash operation succeeding, a sequence of writes behaves like the
updates of a map, and the flash is used as a write-once memory: a slot is
programmed only while it is blank, and only once between two erasures.
-/

namespace Bldc.Eeprom

open Foundation Foundation.Program Flash Conf

/-! ## Write-once use of the slots -/

/-- `address` is one of the two halfwords of slot `i` of `page`. -/
def InSlot (page : Page) (i address : Nat) : Prop :=
  0 < i ∧ i ≤ capacity ∧ (address = slotAddress page i ∨ address = slotAddress page i + 2)

/-- No halfword of a slot is programmed while it is used. Programming it uses it,
erasing its sector makes it available again. -/
def WriteOnce : (used : Nat → Prop) → List Op → Prop
  | _, [] => True
  | used, .programHalfWord address _ :: ops =>
      (∀ page i, InSlot page i address → ¬used address) ∧
        WriteOnce (fun x => used x ∨ x = address) ops
  | used, .programByte address _ :: ops =>
      (∀ page i, InSlot page i address → ¬used address) ∧
        WriteOnce (fun x => used x ∨ x = address) ops
  | used, .eraseSector sector :: ops =>
      WriteOnce (fun x => used x ∧ ¬(flashAddr sector ≤ x ∧ x < sectorEnd sector)) ops

/-- The halfwords of the slots that are not blank. -/
def usedSlots (flash : Memory) (address : Nat) : Prop :=
  ∃ page i, InSlot page i address ∧ slot flash page i ≠ blank

/-- The operations the code issues: whole entries into blank slots, headers and
erasures of a page. -/
inductive Trace : Memory → List Op → Memory → Prop where
  | nil (flash : Memory) : Trace flash [] flash
  | entry {flash flash' : Memory} {ops : List Op} (page : Page) (i : Nat)
      (virtAddress data : Half) (hpos : 0 < i) (hle : i ≤ capacity)
      (hblank : slot flash page i = blank) (hvirt : virtAddress ≠ erased)
      (tail : Trace (programSlot flash page i virtAddress data) ops flash') :
      Trace flash (.programHalfWord (slotAddress page i) data ::
        .programHalfWord (slotAddress page i + 2) virtAddress :: ops) flash'
  | header {flash flash' : Memory} {ops : List Op} (page : Page) (mark : Half)
      (tail : Trace (flash.programHalfWord page.base mark) ops flash') :
      Trace flash (.programHalfWord page.base mark :: ops) flash'
  | erase {flash flash' : Memory} {ops : List Op} (page : Page)
      (tail : Trace (flash.eraseSector page.id) ops flash') :
      Trace flash (.eraseSector page.id :: ops) flash'

theorem Trace.append {flash middle flash' : Memory} {ops ops' : List Op}
    (h : Trace flash ops middle) (h' : Trace middle ops' flash') :
    Trace flash (ops ++ ops') flash' := by
  induction h with
  | nil flash => exact h'
  | entry page i virtAddress data hpos hle hblank hvirt tail ih =>
      exact .entry page i virtAddress data hpos hle hblank hvirt (ih h')
  | header page mark tail ih => exact .header page mark (ih h')
  | erase page tail ih => exact .erase page (ih h')

/-- Blank slots are not used. -/
def Unused (used : Nat → Prop) (flash : Memory) : Prop :=
  ∀ page i address, InSlot page i address → slot flash page i = blank → ¬used address

theorem unused_usedSlots (flash : Memory) : Unused (usedSlots flash) flash := by
  rintro page i address ⟨-, hle, haddress⟩ hblank ⟨page', j, ⟨-, hle', haddress'⟩, hused⟩
  by_cases hsame : page = page' ∧ i = j
  · obtain ⟨rfl, rfl⟩ := hsame
    exact hused hblank
  · rw [not_and_or] at hsame
    have hdisjoint := slotAddress_disjoint hle hle' hsame
    omega

theorem InSlot.ne_of_ne {page page' : Page} {i j address : Nat} (h : InSlot page i address)
    (hle : j ≤ capacity) (hne : page ≠ page' ∨ i ≠ j) :
    address ≠ slotAddress page' j ∧ address ≠ slotAddress page' j + 2 := by
  obtain ⟨-, hle', haddress⟩ := h
  have hdisjoint := slotAddress_disjoint hle' hle hne
  omega

theorem InSlot.sector {page : Page} {i address : Nat} (h : InSlot page i address) :
    flashAddr page.id ≤ address ∧ address < sectorEnd page.id := by
  obtain ⟨-, hle, haddress⟩ := h
  have hcap : capacity = 4095 := rfl
  rw [hcap] at hle
  cases page
  · change address = 0x08004000 + 4 * i ∨ address = 0x08004000 + 4 * i + 2 at haddress
    change 0x08004000 ≤ address ∧ address < 0x08008000
    omega
  · change address = 0x08004000 + 0x4000 + 4 * i ∨
      address = 0x08004000 + 0x4000 + 4 * i + 2 at haddress
    change 0x08008000 ≤ address ∧ address < 0x0800C000
    omega

/-- The discipline of the trace is enough for write-once use. -/
theorem Trace.writeOnce {flash flash' : Memory} {ops : List Op} (h : Trace flash ops flash') :
    ∀ {used : Nat → Prop}, Unused used flash → WriteOnce used ops := by
  induction h with
  | nil flash => exact fun _ => trivial
  | @entry flash flash' ops page i virtAddress data hpos hle hblank hvirt tail ih =>
      intro used hused
      refine ⟨fun _ _ _ => hused page i _ ⟨hpos, hle, Or.inl rfl⟩ hblank, fun _ _ _ => ?_, ih ?_⟩
      · rintro (hold | heq)
        · exact hused page i _ ⟨hpos, hle, Or.inr rfl⟩ hblank hold
        · omega
      · intro page' j address hslot hblank'
        by_cases hsame : page' = page ∧ j = i
        · -- the slot just written has an address and is not blank
          obtain ⟨rfl, rfl⟩ := hsame
          rw [programSlot, slot_programAddress, slot_programData, hblank] at hblank'
          exact absurd ((erased_and virtAddress).symm.trans (congrArg Prod.fst hblank')) hvirt
        · rw [not_and_or] at hsame
          have hne := hslot.ne_of_ne hle hsame
          rw [programSlot, slot_programHalfWord_of_ne _ _ hslot.2.1 hle hsame (Or.inr rfl),
            slot_programHalfWord_of_ne _ _ hslot.2.1 hle hsame (Or.inl rfl)] at hblank'
          rintro ((hold | heq) | heq)
          · exact hused page' j address hslot hblank' hold
          · exact hne.1 heq
          · exact hne.2 heq
  | @header flash flash' ops page mark tail ih =>
      intro used hused
      have hheader : ∀ {page' : Page} {j address : Nat}, InSlot page' j address →
          address ≠ page.base := fun hslot =>
        (hslot.ne_of_ne (Nat.zero_le capacity) (Or.inr (Nat.ne_of_gt hslot.1))).1
      refine ⟨fun page' j hslot => absurd rfl (hheader hslot), ih ?_⟩
      intro page' j address hslot hblank'
      rw [slot_programStatus flash page mark hslot.1 hslot.2.1] at hblank'
      rintro (hold | heq)
      · exact hused page' j address hslot hblank' hold
      · exact hheader hslot heq
  | @erase flash flash' ops page tail ih =>
      intro used hused
      refine ih fun page' j address hslot hblank' => ?_
      rintro ⟨hold, houtside⟩
      rcases page.eq_or_eq_other page' with rfl | rfl
      · exact houtside hslot.sector
      · have hkept : slot (flash.eraseSector page.other.other.id) page.other j =
            slot flash page.other j := slot_erase_other flash hslot.2.1
        rw [Page.other_other] at hkept
        rw [hkept] at hblank'
        exact hused _ j address hslot hblank' hold

/-! ## The operations of the code -/

/-- With the table `tab`, the undisturbed run of `program` issues only operations
of a `Trace`, and keeps the table. -/
def Traced (tab : List Half) {α : Type} (program : EeProgram α) : Prop :=
  ∀ mem, mem.virtAddVarTab = tab → (device.run program mem).2.virtAddVarTab = tab ∧
    Trace mem.flash ((device.ops program mem).map Prod.snd) (device.run program mem).2.flash

section Traced

variable {α β : Type} {tab : List Half}

theorem traced_ret (value : α) : Traced tab (ret value) := fun mem hmem => ⟨hmem, .nil mem.flash⟩

theorem traced_look {k : Mem → EeProgram α}
    (h : ∀ mem, mem.virtAddVarTab = tab → Traced tab (k mem)) : Traced tab (look k) :=
  fun mem hmem => h mem hmem mem hmem

theorem traced_bind {program : EeProgram α} {next : α → EeProgram β} (h : Traced tab program)
    (hnext : ∀ value, Traced tab (next value)) : Traced tab (program.bind next) := by
  intro mem hmem
  obtain ⟨hmiddle, htrace⟩ := h mem hmem
  obtain ⟨hfinal, htrace'⟩ := hnext _ _ hmiddle
  rw [Device.ops_bind, Device.run_bind, List.map_append]
  exact ⟨hfinal, htrace.append htrace'⟩

theorem traced_ite {c : Prop} [Decidable c] {program program' : EeProgram α}
    (h : Traced tab program) (h' : Traced tab program') :
    Traced tab (if c then program else program') := by
  split
  · exact h
  · exact h'

theorem traced_header {next : Status → EeProgram α} (page : Page) (mark : Half)
    (hnext : ∀ status, Traced tab (next status)) :
    Traced tab (op (.programHalfWord page.base mark) next) := by
  intro mem hmem
  obtain ⟨hfinal, htrace⟩ :=
    hnext .complete (device.perform (.programHalfWord page.base mark) mem) hmem
  exact ⟨hfinal, .header page mark htrace⟩

theorem traced_erase (page : Page) : Traced tab (eeEraseSectorIfNotEmpty page.id) :=
  traced_look fun _ _ => traced_ite (traced_ret _) fun _ hmem => ⟨hmem, .erase page (.nil _)⟩

theorem traced_verify {virtAddress : Half} (hvirt : virtAddress ≠ erased) (data : Half) :
    Traced tab (eeVerifyPageFullWriteVariable virtAddress data) := by
  intro mem hmem
  simp only [eeVerifyPageFullWriteVariable, Program.read, bind_eq, look_bind, ret_bind,
    Device.ops, Device.run_look]
  cases hfind : eeFindValidPage mem.flash .writeInValidPage with
  | none => exact ⟨hmem, .nil mem.flash⟩
  | some page =>
      cases hloop : writeLoop mem.flash (pageSize / 4) page.base with
      | none =>
          simp only [hloop]
          exact ⟨hmem, .nil mem.flash⟩
      | some address =>
          obtain ⟨k, hk, rfl, hones⟩ := writeLoop_blank mem.flash hloop
          have hblank := (word_eq_ones_iff_slot mem.flash page k).1 hones
          have hpos : 0 < k := by
            rcases Nat.eq_zero_or_pos k with rfl | hpos
            · exact absurd (congrArg Prod.snd hblank) (eeFindValidPage_write_status hfind)
            · exact hpos
          simp only [hloop]
          exact ⟨hmem, .entry page k virtAddress data hpos (Nat.le_of_lt_succ hk) hblank hvirt
            (.nil _)⟩

theorem traced_transferVariable {virtAddress : Half} (hvirt : virtAddress ≠ erased) :
    Traced tab (transferVariable virtAddress) := by
  intro mem hmem
  simp only [transferVariable, Program.read, Program.modify, bind_eq, look_bind, ret_bind,
    assign_bind, Device.ops, Device.run_look, Device.run_assign]
  split
  · exact traced_verify hvirt _ { mem with dataVar := _ } hmem
  · exact ⟨hmem, .nil _⟩

theorem traced_transferLoop (virtAddress : Half) {vars : List Half}
    (hvars : ∀ a ∈ vars, a ≠ erased) : Traced tab (transferLoop virtAddress vars) := by
  induction vars with
  | nil => exact traced_ret _
  | cons a rest ih =>
      have hrest := ih fun b hb => hvars b (List.mem_cons_of_mem a hb)
      refine traced_ite (traced_bind ?_ fun status => traced_ite (traced_ret _) hrest) hrest
      exact traced_transferVariable (hvars a List.mem_cons_self)

theorem traced_pageTransfer (htab : ∀ a ∈ tab, a ≠ erased) {virtAddress : Half}
    (hvirt : virtAddress ≠ erased) (data : Half) :
    Traced tab (eePageTransfer virtAddress data) := by
  refine traced_look fun mem hmem => ?_
  rw [ret_bind, hmem]
  cases eeFindValidPage mem.flash .readFromValidPage with
  | none => exact traced_ret _
  | some oldPage =>
      refine traced_header oldPage.other receiveData fun status => traced_ite (traced_ret _) ?_
      refine traced_bind (traced_verify hvirt data) fun status => traced_ite (traced_ret _) ?_
      refine traced_bind (traced_transferLoop virtAddress htab) fun status =>
        traced_ite (traced_ret _) ?_
      refine traced_bind (traced_erase oldPage) fun status => traced_ite (traced_ret _) ?_
      exact traced_header oldPage.other validPage fun status => traced_ret _

/-- A write programs blank slots only, whatever the state of the flash. -/
theorem traced_writeVariable (htab : ∀ a ∈ tab, a ≠ erased) {virtAddress : Half}
    (hvirt : virtAddress ≠ erased) (data : Half) :
    Traced tab (eeWriteVariable virtAddress data) :=
  traced_bind (traced_verify hvirt data) fun _ =>
    traced_ite (traced_pageTransfer htab hvirt data) (traced_ret _)

end Traced

/-! ## Sequences of writes -/

/-- One call of `EE_WriteVariable` after the other, with their statuses. -/
def writeAll : List (Half × Half) → EeProgram (List EeStatus)
  | [] => pure []
  | (virtAddress, data) :: rest => do
      let status ← eeWriteVariable virtAddress data
      let statuses ← writeAll rest
      pure (status :: statuses)

theorem traced_writeAll {tab : List Half} (htab : ∀ a ∈ tab, a ≠ erased)
    (writes : List (Half × Half)) (hwrites : ∀ entry ∈ writes, entry.1 ∈ tab) :
    Traced tab (writeAll writes) := by
  induction writes with
  | nil => exact traced_ret _
  | cons entry rest ih =>
      have hentry := hwrites entry List.mem_cons_self
      refine traced_bind (traced_writeVariable htab (htab _ hentry) entry.2) fun status => ?_
      exact traced_bind (ih fun e he => hwrites e (List.mem_cons_of_mem entry he))
        fun statuses => traced_ret _

/-- A table variable can always be written: the entries of the table fit on a
page. -/
theorem run_writeVariable {tab : List Half} (htab : ∀ a ∈ tab, a ≠ erased)
    (hsize : tab.length + 1 ≤ pageSize / 4) {mem : Mem} (hmem : mem.virtAddVarTab = tab)
    {page : Page} {log : List Entry} (hclean : Clean mem.flash page log)
    {virtAddress : Half} (hvirt : virtAddress ∈ tab) (data : Half) :
    (device.run (eeWriteVariable virtAddress data) mem).1 = .complete ∧
      (device.run (eeWriteVariable virtAddress data) mem).2.virtAddVarTab = tab ∧
      ∃ page' log', Clean (device.run (eeWriteVariable virtAddress data) mem).2.flash page' log' ∧
        ∀ a ∈ tab, latest a log' = latest a (log ++ [(virtAddress, data)]) := by
  rcases (meets_writeVariable honest_false htab (htab _ hvirt) hmem hclean).undisturbed with
    ⟨hstatus, hm, hwritten⟩ | ⟨-, -, -, hlarge⟩
  · refine ⟨hstatus, hm, ?_⟩
    obtain ⟨page', log', hclean', hlatest⟩ := Written.latest_eq hwritten
    refine ⟨page', log', hclean', fun a ha => ?_⟩
    rw [hlatest a ha (htab a ha)]
    exact (congrFun valuesOf_concat a).symm
  · have hfilter : (tab.filter (· ≠ virtAddress)).length < tab.length := by
      rw [List.length_filter_lt_length_iff_exists]
      exact ⟨virtAddress, hvirt, by simp⟩
    rw [pageSize_div] at hsize
    omega

theorem run_writeAll {tab : List Half} (htab : ∀ a ∈ tab, a ≠ erased)
    (hsize : tab.length + 1 ≤ pageSize / 4) (writes : List (Half × Half)) :
    ∀ {mem : Mem} {page : Page} {log : List Entry}, mem.virtAddVarTab = tab →
      Clean mem.flash page log → (∀ entry ∈ writes, entry.1 ∈ tab) →
      (device.run (writeAll writes) mem).1 = List.replicate writes.length .complete ∧
      ∃ page' log', Clean (device.run (writeAll writes) mem).2.flash page' log' ∧
        ∀ a ∈ tab, latest a log' = latest a (log ++ writes) := by
  induction writes with
  | nil =>
      intro mem page log hmem hclean _
      exact ⟨rfl, page, log, hclean, fun a _ => by rw [List.append_nil]⟩
  | cons entry rest ih =>
      obtain ⟨virtAddress, data⟩ := entry
      intro mem page log hmem hclean hwrites
      obtain ⟨hstatus, hmem', page', log', hclean', hlatest⟩ := run_writeVariable htab hsize hmem
        hclean (hwrites _ List.mem_cons_self) data
      obtain ⟨hstatuses, page'', log'', hclean'', hlatest'⟩ := ih hmem' hclean'
        fun e he => hwrites e (List.mem_cons_of_mem _ he)
      simp only [writeAll, bind_eq, pure_eq, Device.run_bind, Device.run_ret]
      refine ⟨?_, page'', log'', hclean'', fun a ha => ?_⟩
      · rw [hstatus, hstatuses]
        rfl
      · rw [hlatest' a ha, List.append_cons, latest_append, hlatest a ha, ← latest_append]

/-- One page is valid and the other erased in all its bytes. -/
def OneValidPage (flash : Memory) : Prop :=
  ∃ page : Page, pageStatus flash page = validPage ∧
    ∀ i < pageSize, flash (page.other.base + i) = 0xFF

theorem Clean.oneValidPage {flash : Memory} {page : Page} {log : List Entry}
    (h : Clean flash page log) : OneValidPage flash :=
  ⟨page, h.1.status_eq, fun _ hi => h.2.bytes hi⟩

/-- The two-page log implements a finite map. -/
theorem writeAll_refines_map (tab : List Half) (mem : Mem) (writes : List (Half × Half))
    (htab : ∀ a ∈ tab, a ≠ erased) (hsize : tab.length + 1 ≤ pageSize / 4)
    (hmem : mem.virtAddVarTab = tab) (hstart : ∃ page log, Clean mem.flash page log)
    (hwrites : ∀ entry ∈ writes, entry.1 ∈ tab) :
    (device.run (writeAll writes) mem).1 = List.replicate writes.length .complete ∧
      (∀ a ∈ tab, ∀ data, eeReadVariable (device.run (writeAll writes) mem).2.flash a data =
        match latest a writes with
        | some value => (.found, value)
        | none => eeReadVariable mem.flash a data) ∧
      OneValidPage (device.run (writeAll writes) mem).2.flash ∧
      WriteOnce (usedSlots mem.flash) ((device.ops (writeAll writes) mem).map Prod.snd) := by
  obtain ⟨page, log, hclean⟩ := hstart
  obtain ⟨hstatuses, page', log', hclean', hlatest⟩ :=
    run_writeAll htab hsize writes hmem hclean hwrites
  refine ⟨hstatuses, fun a ha data => ?_, hclean'.oneValidPage, ?_⟩
  · rw [hclean'.read (htab a ha), hlatest a ha, hclean.read (htab a ha), latest_append]
    cases latest a writes <;> rfl
  · exact (traced_writeAll htab writes hwrites mem hmem).2.writeOnce (unused_usedSlots mem.flash)

/-- Two writes of one variable on a formatted flash. -/
theorem writeAll_refines_map_formatted :
    (device.run (writeAll [(1000, 0xFFFF), (1000, 0)]) ⟨formatted, virtAddVarTab, 0⟩).1 =
        [.complete, .complete] ∧
      eeReadVariable
        (device.run (writeAll [(1000, 0xFFFF), (1000, 0)]) ⟨formatted, virtAddVarTab, 0⟩).2.flash
        1000 5 = (.found, 0) := by
  have hmem : (1000 : Half) ∈ virtAddVarTab := by
    obtain ⟨rest, hhead⟩ := virtAddVarTab_head
    rw [hhead]
    exact List.mem_cons_self
  have hwrites : ∀ entry ∈ [((1000 : Half), (0xFFFF : Half)), (1000, 0)],
      entry.1 ∈ virtAddVarTab := by
    rw [List.forall_mem_cons, List.forall_mem_singleton]
    exact ⟨hmem, hmem⟩
  obtain ⟨hstatuses, hread, -⟩ := writeAll_refines_map virtAddVarTab
    ⟨formatted, virtAddVarTab, 0⟩ [(1000, 0xFFFF), (1000, 0)] (fun _ => virtAddVarTab_ne_ones)
    (by rw [virtAddVarTab_length]; decide) rfl ⟨.page0, [], clean_formatted⟩ hwrites
  exact ⟨hstatuses, hread 1000 hmem 5⟩

end Bldc.Eeprom
