import Mathlib.Logic.Function.Basic
import Bldc.Eeprom.Pages

/-!
# Specifications of the EEPROM operations

The flash moves between four shapes: one page valid and the other erased, a
transfer under way, the old page erased but the new one not yet marked, and both
pages valid. Every operation is specified by the shapes it can end in, also when
a flash operation fails or power is lost in the middle.
-/

namespace Bldc.Eeprom

open Foundation Foundation.Program Flash

/-! ## Shapes -/

def Clean (flash : Memory) (page : Page) (log : List Entry) : Prop :=
  Holds flash page validPage log ∧ Blank flash page.other

def Receiving (flash : Memory) (page : Page) (src dst : List Entry) : Prop :=
  Holds flash page validPage src ∧ Holds flash page.other receiveData dst

/-- The page with the data is still marked as receiving, the old one is gone. -/
def Promoted (flash : Memory) (page : Page) (log : List Entry) : Prop :=
  Holds flash page receiveData log ∧ Blank flash page.other

/-- The condition under which the next `EE_Init` formats both pages. -/
def BothValid (flash : Memory) : Prop :=
  pageStatus flash .page0 = validPage ∧ pageStatus flash .page1 = validPage

instance (flash : Memory) : Decidable (BothValid flash) :=
  inferInstanceAs (Decidable (_ ∧ _))

/-- Values of the variables. -/
abbrev Values := Half → Option Half

/-- `log` gives the table variables their values; others may be missing. -/
def Agrees (tab : List Half) (values : Values) (log : List Entry) : Prop :=
  ∀ a ≠ erased, latest a log = values a ∨ a ∉ tab ∧ latest a log = none

/-- The address in the first slot; `erased` when there is none. -/
def first (log : List Entry) : Half := (log.headD blank).1

/-- A transfer from `src` to `dst` under way. The first entry of `dst` is the
variable whose write caused the transfer and carries its new value; everything
else in `dst` is a copy from `src`. -/
structure Copying (tab : List Half) (old new : Values) (src dst : List Entry) : Prop where
  source : ∀ a ≠ erased, latest a src = old a
  written : ∀ a ≠ erased, a = first dst → latest a dst = new a
  unwritten : ∀ a ≠ erased, a ≠ first dst → new a = old a
  copied : ∀ a ≠ erased, a ≠ first dst → latest a dst = none ∨ a ∈ tab ∧ latest a dst = old a

/-- Every shape from which the next undisturbed `EE_Init` recovers `new`, or
leaves `old` readable. -/
inductive Recoverable (tab : List Half) (old new : Values) (flash : Memory) : Prop where
  | clean (page : Page) (log : List Entry) (shape : Clean flash page log)
      (agrees : Agrees tab new log)
  | promoted (page : Page) (log : List Entry) (shape : Promoted flash page log)
      (agrees : Agrees tab new log)
  | receiving (page : Page) (src dst : List Entry) (shape : Receiving flash page src dst)
      (copying : Copying tab old new src dst)

/-- The receiving page is full and the transfer cannot end: some variable still
has to be copied. -/
def Stuck (tab : List Half) (values : Values) (flash : Memory) : Prop :=
  ∃ page src dst, Receiving flash page src dst ∧ (∀ a ≠ erased, latest a src = values a) ∧
    dst.length = capacity ∧ ∃ a ∈ tab, a ≠ first dst ∧ latest a src ≠ none

/-! ## Operations between shapes -/

section Shapes

variable {flash : Memory} {page : Page} {log src dst : List Entry} {virtAddress : Half}

theorem Clean.programData (h : Clean flash page log) (hspace : log.length < capacity)
    (data : Half) :
    Clean (flash.programHalfWord (slotAddress page (log.length + 1)) data) page
      (tear log data) :=
  ⟨h.1.programData hspace data, h.2.program_of_ne page.other_ne hspace data (Or.inl rfl)⟩

theorem Clean.programEntry (h : Clean flash page log) (hspace : log.length < capacity)
    (hvirt : virtAddress ≠ erased) (data : Half) :
    Clean (programSlot flash page (log.length + 1) virtAddress data) page
      (log ++ [(virtAddress, data)]) :=
  ⟨h.1.programEntry hspace hvirt data,
    (h.2.program_of_ne page.other_ne hspace data (Or.inl rfl)).program_of_ne page.other_ne
      hspace virtAddress (Or.inr rfl)⟩

theorem Receiving.programData (h : Receiving flash page src dst)
    (hspace : dst.length < capacity) (data : Half) :
    Receiving (flash.programHalfWord (slotAddress page.other (dst.length + 1)) data) page src
      (tear dst data) :=
  ⟨h.1.program_of_ne page.other_ne.symm hspace data (Or.inl rfl), h.2.programData hspace data⟩

theorem Receiving.programEntry (h : Receiving flash page src dst)
    (hspace : dst.length < capacity) (hvirt : virtAddress ≠ erased) (data : Half) :
    Receiving (programSlot flash page.other (dst.length + 1) virtAddress data) page src
      (dst ++ [(virtAddress, data)]) :=
  ⟨(h.1.program_of_ne page.other_ne.symm hspace data (Or.inl rfl)).program_of_ne
      page.other_ne.symm hspace virtAddress (Or.inr rfl), h.2.programEntry hspace hvirt data⟩

/-- Marking the erased page as receiving starts a transfer. -/
theorem Clean.markReceiving (h : Clean flash page log) :
    Receiving (flash.programHalfWord page.other.base receiveData) page log [] :=
  ⟨h.1.program_of_ne page.other_ne.symm (Nat.zero_le capacity) receiveData (Or.inl rfl),
    h.2.holds.programStatus receiveData⟩

/-- Marking a receiving page again changes nothing. -/
theorem Receiving.markReceiving (h : Receiving flash page src dst) :
    Receiving (flash.programHalfWord page.other.base receiveData) page src dst :=
  ⟨h.1.program_of_ne page.other_ne.symm (Nat.zero_le capacity) receiveData (Or.inl rfl),
    h.2.programStatus receiveData⟩

theorem Receiving.erase (h : Receiving flash page src dst) :
    Promoted (flash.eraseSector page.id) page.other dst := by
  have hother := h.2.erase_other
  rw [Page.other_other] at hother
  exact ⟨hother, by rw [Page.other_other]; exact blank_erase flash page⟩

theorem Promoted.markValid (h : Promoted flash page log) :
    Clean (flash.programHalfWord page.base validPage) page log :=
  ⟨h.1.programStatus validPage,
    h.2.program_of_ne page.other_ne (Nat.zero_le capacity) validPage (Or.inl rfl)⟩

theorem Promoted.eraseOther (h : Promoted flash page log) :
    Promoted (flash.eraseSector page.other.id) page log :=
  ⟨h.1.erase_other, blank_erase flash page.other⟩

theorem Clean.eraseOther (h : Clean flash page log) :
    Clean (flash.eraseSector page.other.id) page log :=
  ⟨h.1.erase_other, blank_erase flash page.other⟩

theorem Receiving.markValid (h : Receiving flash page src dst) :
    BothValid (flash.programHalfWord page.other.base validPage) ∧
      Holds (flash.programHalfWord page.other.base validPage) page.other validPage dst := by
  have hother := h.2.programStatus validPage
  have hpage := h.1.program_of_ne page.other_ne.symm (Nat.zero_le capacity) validPage
    (Or.inl rfl)
  refine ⟨?_, hother⟩
  cases page
  · exact ⟨hpage.status_eq, hother.status_eq⟩
  · exact ⟨hother.status_eq, hpage.status_eq⟩

theorem Clean.find_read (h : Clean flash page log) :
    eeFindValidPage flash .readFromValidPage = some page :=
  eeFindValidPage_read h.1.status_eq (by rw [h.2.status]; decide)

theorem Clean.find_write (h : Clean flash page log) :
    eeFindValidPage flash .writeInValidPage = some page :=
  eeFindValidPage_write h.1.status_eq h.2.status

theorem Receiving.find_read (h : Receiving flash page src dst) :
    eeFindValidPage flash .readFromValidPage = some page :=
  eeFindValidPage_read h.1.status_eq (by rw [h.2.status_eq]; decide)

theorem Receiving.find_write (h : Receiving flash page src dst) :
    eeFindValidPage flash .writeInValidPage = some page.other :=
  eeFindValidPage_receiving h.1.status_eq h.2.status_eq

/-- What `EE_ReadVariable` returns for a variable of the given value. -/
def readResult (data : Half) : Option Half → ReadStatus × Half
  | some value => (.found, value)
  | none => (.notFound, data)

theorem eeReadVariable_eq {status : Half}
    (hfind : eeFindValidPage flash .readFromValidPage = some page)
    (h : Holds flash page status log) (hvirt : virtAddress ≠ erased) (data : Half) :
    eeReadVariable flash virtAddress data = readResult data (latest virtAddress log) := by
  unfold eeReadVariable
  simp only [hfind, h.readLoop hvirt]
  cases latest virtAddress log <;> rfl

theorem Clean.read (h : Clean flash page log) (hvirt : virtAddress ≠ erased) (data : Half) :
    eeReadVariable flash virtAddress data = readResult data (latest virtAddress log) :=
  eeReadVariable_eq h.find_read h.1 hvirt data

theorem Receiving.read (h : Receiving flash page src dst) (hvirt : virtAddress ≠ erased)
    (data : Half) :
    eeReadVariable flash virtAddress data = readResult data (latest virtAddress src) :=
  eeReadVariable_eq h.find_read h.1 hvirt data

end Shapes

theorem blank_ones (page : Page) : Blank (fun _ => 0xFF) page := by
  intro i _
  simp only [slot, Memory.half]
  decide

/-- A freshly formatted flash. -/
def formatted : Memory := Memory.programHalfWord (fun _ => 0xFF) Page.page0.base validPage

theorem clean_formatted : Clean formatted .page0 [] :=
  ⟨(blank_ones .page0).holds.programStatus validPage,
    (blank_ones .page1).program_of_ne Page.page0.other_ne (Nat.zero_le capacity) validPage
      (Or.inl rfl)⟩

/-! ## Copying one variable -/

theorem first_concat (log : List Entry) (entry : Entry) :
    first (log ++ [entry]) = if log = [] then entry.1 else first log := by
  cases log with
  | nil => rfl
  | cons head tail => rfl

theorem first_tear (log : List Entry) (data : Half) : first (tear log data) = first log := by
  unfold tear
  split
  next => rfl
  next =>
      rw [first_concat]
      split
      next hnil =>
          rw [hnil]
          rfl
      next => rfl

theorem latest_tear {a : Half} (ha : a ≠ erased) (log : List Entry) (data : Half) :
    latest a (tear log data) = latest a log := by
  unfold tear
  split
  next => rfl
  next => exact latest_concat_of_ne log ha.symm

theorem Agrees.tear {tab : List Half} {values : Values} {log : List Entry}
    (h : Agrees tab values log) (data : Half) : Agrees tab values (tear log data) := by
  intro a ha
  rw [latest_tear ha]
  exact h a ha

section Copying

variable {tab : List Half} {old new : Values} {src dst : List Entry}

theorem Copying.tear (h : Copying tab old new src dst) (data : Half) :
    Copying tab old new src (tear dst data) where
  source := h.source
  written a ha hfirst := by
    rw [latest_tear ha]
    exact h.written a ha (by rw [hfirst, first_tear])
  unwritten a ha hfirst := h.unwritten a ha (by rwa [first_tear] at hfirst)
  copied a ha hfirst := by
    rw [latest_tear ha]
    exact h.copied a ha (by rwa [first_tear] at hfirst)

theorem Copying.concat (h : Copying tab old new src dst) {b data : Half} (hb : b ≠ erased)
    (hmem : b ∈ tab) (hne : b ≠ first dst) (hold : latest b src = some data) :
    Copying tab old new src (dst ++ [(b, data)]) := by
  have hdata : some data = old b := by rw [← h.source b hb, hold]
  have hnew : new b = old b := h.unwritten b hb hne
  -- an empty receiver gets the copy as its first entry, which carries the old value
  have hfirst : first (dst ++ [(b, data)]) = b ∧ first dst = erased ∨
      first (dst ++ [(b, data)]) = first dst := by
    rw [first_concat]
    split
    next hnil => exact Or.inl ⟨rfl, by rw [hnil]; rfl⟩
    next => exact Or.inr rfl
  refine ⟨h.source, fun a ha hfa => ?_, fun a ha hfa => ?_, fun a ha hfa => ?_⟩
  · by_cases hab : b = a
    · rw [← hab, latest_concat_self, hdata, hnew]
    · rw [latest_concat_of_ne dst hab]
      rcases hfirst with ⟨hf, -⟩ | hf
      · exact absurd (hfa.trans hf) (Ne.symm hab)
      · exact h.written a ha (hfa.trans hf)
  · rcases hfirst with ⟨-, hf⟩ | hf
    · exact h.unwritten a ha (by rw [hf]; exact ha)
    · exact h.unwritten a ha (by rw [← hf]; exact hfa)
  · by_cases hab : b = a
    · subst hab
      exact Or.inr ⟨hmem, by rw [latest_concat_self, hdata]⟩
    · rw [latest_concat_of_ne dst hab]
      rcases hfirst with ⟨-, hf⟩ | hf
      · exact h.copied a ha (by rw [hf]; exact ha)
      · exact h.copied a ha (by rw [← hf]; exact hfa)

/-- When every table variable has been copied the receiver stands on its own. -/
theorem Copying.agrees (h : Copying tab old new src dst)
    (hall : ∀ b ∈ tab, latest b dst = new b) : Agrees tab new dst := by
  intro a ha
  by_cases hmem : a ∈ tab
  · exact Or.inl (hall a hmem)
  · by_cases hfirst : a = first dst
    · exact Or.inl (h.written a ha hfirst)
    · rcases h.copied a ha hfirst with hnone | ⟨htab, -⟩
      · exact Or.inr ⟨hmem, hnone⟩
      · exact absurd htab hmem

end Copying

/-! ## Rules for the checked operations

The code returns at the first status that is not `FLASH_COMPLETE`. `Meets`
describes a program by three conditions on the memory: on success, on
`PAGE_FULL`, and wherever a failed operation or a power loss stopped it.
-/

/-- A failing operation never reports success. -/
def Honest (A : Answer Status → Prop) : Prop :=
  ∀ status performed, A (.fail status performed) → status ≠ .complete

def Ends (A : Answer Status → Prop) (done full broken : Mem → Prop) : EeStatus → Mem → Prop
  | .flash status, mem =>
      status = .complete ∧ done mem ∨
        status ≠ .complete ∧ (∃ performed, A (.fail status performed)) ∧ broken mem
  | .pageFull, mem => full mem
  | .noValidPage, _ => False

def Meets (A : Answer Status → Prop) (program : EeProgram EeStatus)
    (done full broken : Mem → Prop) (mem : Mem) : Prop :=
  device.Wp A program (Ends A done full broken) broken mem

section Rules

variable {A : Answer Status → Prop} {done full broken middle : Mem → Prop} {mem : Mem}

theorem meets_complete (h : done mem) : Meets A (ret .complete) done full broken mem :=
  Device.wp_ret (Or.inl ⟨rfl, h⟩)

theorem meets_pageFull (h : full mem) : Meets A (ret .pageFull) done full broken mem :=
  Device.wp_ret h

theorem meets_mono {program : EeProgram EeStatus} {done' full' broken' : Mem → Prop}
    (h : Meets A program done full broken mem) (hdone : ∀ m, done m → done' m)
    (hfull : ∀ m, full m → full' m) (hbroken : ∀ m, broken m → broken' m) :
    Meets A program done' full' broken' mem := by
  refine Device.wp_mono h (fun status m hm => ?_) hbroken
  cases status with
  | flash status =>
      rcases hm with ⟨hstatus, hm⟩ | ⟨hstatus, hfail, hm⟩
      · exact Or.inl ⟨hstatus, hdone m hm⟩
      · exact Or.inr ⟨hstatus, hfail, hbroken m hm⟩
  | pageFull => exact hfull m hm
  | noValidPage => exact hm

/-- Without disturbance there is no failure and no cut. -/
theorem Meets.undisturbed {program : EeProgram EeStatus}
    (h : Meets (fun _ => False) program done full broken mem) :
    (device.run program mem).1 = .complete ∧ done (device.run program mem).2 ∨
      (device.run program mem).1 = .pageFull ∧ full (device.run program mem).2 := by
  have hrun := Device.Wp.run h
  rcases hvalue : device.run program mem with ⟨status, m⟩
  rw [hvalue] at hrun
  cases status with
  | flash status =>
      rcases hrun with ⟨hstatus, hdone⟩ | ⟨-, ⟨-, hfail⟩, -⟩
      · exact Or.inl ⟨congrArg EeStatus.flash hstatus, hdone⟩
      · exact hfail.elim
  | pageFull => exact Or.inr ⟨rfl, hrun⟩
  | noValidPage => exact hrun.elim

theorem honest_false : Honest fun _ => False := fun _ _ h => h.elim

theorem meets_then {program next : EeProgram EeStatus}
    (h : Meets A program middle full broken mem)
    (hnext : ∀ m, middle m → Meets A next done full broken m) :
    Meets A (program.bind fun status => if status ≠ .complete then ret status else next)
      done full broken mem := by
  refine Device.wp_bind (Device.wp_mono h (fun status m hm => ?_) fun _ hm => hm)
  cases status with
  | flash status =>
      rcases hm with ⟨rfl, hm⟩ | ⟨hstatus, hfail, hm⟩
      · exact hnext m hm
      · rw [if_pos (by simpa using hstatus)]
        exact Device.wp_ret (Or.inr ⟨hstatus, hfail, hm⟩)
  | pageFull => exact Device.wp_ret hm
  | noValidPage => exact hm.elim

theorem meets_op (hA : Honest A) {operation : Op} {next : EeProgram EeStatus}
    (hbefore : broken mem) (hafter : broken (device.perform operation mem))
    (h : Meets A next done full broken (device.perform operation mem)) :
    Meets A (op operation fun status =>
      if status ≠ .complete then ret (.flash status) else next) done full broken mem := by
  refine Device.wp_op h (fun status performed hfail => ?_) fun _ => hbefore
  have hstatus := hA status performed hfail
  rw [if_pos hstatus]
  refine Device.wp_ret (Or.inr ⟨hstatus, ⟨performed, hfail⟩, ?_⟩)
  cases performed
  · exact hbefore
  · exact hafter

theorem meets_last (hA : Honest A) {operation : Op} (hbefore : broken mem)
    (hafter : broken (device.perform operation mem)) (hdone : done (device.perform operation mem)) :
    Meets A (op operation fun status => ret (.flash status)) done full broken mem := by
  refine Device.wp_op (meets_complete hdone) (fun status performed hfail => ?_) fun _ => hbefore
  refine Device.wp_ret (Or.inr ⟨hA status performed hfail, ⟨performed, hfail⟩, ?_⟩)
  cases performed
  · exact hbefore
  · exact hafter

/-- `EE_EraseSectorIfNotEmpty` leaves the page blank, whether or not it erases. -/
theorem meets_erase (hA : Honest A) {page : Page} {next : Status → EeProgram EeStatus}
    (hnext : ∀ status ≠ .complete, next status = ret (.flash status))
    (hbefore : broken mem)
    (hafter : broken (device.perform (.eraseSector page.id) mem))
    (hkept : Blank mem.flash page → Meets A (next .complete) done full broken mem)
    (herased : Meets A (next .complete) done full broken
      (device.perform (.eraseSector page.id) mem)) :
    Meets A ((eeEraseSectorIfNotEmpty page.id).bind next) done full broken mem := by
  refine Device.wp_bind (Device.wp_look ?_)
  change device.Wp A (if emptyLoop mem.flash pageSize (getSectorAddress page.id)
    then ret .complete else op (.eraseSector page.id) ret) _ _ mem
  split
  next hempty => exact Device.wp_ret (hkept (blank_of_emptyLoop hempty))
  next hused =>
      refine Device.wp_op (Device.wp_ret herased) (fun status performed hfail => ?_)
        fun _ => hbefore
      have hstatus := hA status performed hfail
      refine Device.wp_ret ?_
      rw [hnext status hstatus]
      refine Device.wp_ret (Or.inr ⟨hstatus, ⟨performed, hfail⟩, ?_⟩)
      cases performed
      · exact hbefore
      · exact hafter

end Rules

end Bldc.Eeprom
