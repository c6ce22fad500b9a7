import Bldc.Eeprom.Spec

/-!
# Writing and page transfer

Specifications of `EE_WriteVariable` and what it calls, for every pattern of
failing operations and power losses.
-/

namespace Bldc.Eeprom

open Foundation Foundation.Program Flash

/-- The table is `tab` and the flash satisfies `P`. -/
def At (tab : List Half) (P : Memory → Prop) (mem : Mem) : Prop :=
  mem.virtAddVarTab = tab ∧ P mem.flash

section

variable {A : Answer Status → Prop} {done full broken : Mem → Prop} {mem : Mem}
variable {tab : List Half} {old new : Values} {page : Page} {log src dst : List Entry}
variable {virtAddress data : Half}

theorem At.mono {P Q : Memory → Prop} (h : At tab P mem) (hPQ : P mem.flash → Q mem.flash) :
    At tab Q mem := ⟨h.1, hPQ h.2⟩

/-- `EE_VerifyPageFullWriteVariable` on a page that holds `log`. -/
theorem meets_verify (hA : Honest A) {status : Half}
    (hfind : eeFindValidPage mem.flash .writeInValidPage = some page)
    (hholds : Holds mem.flash page status log) (hstatus : status ≠ erased)
    (hfull : log.length = capacity → full mem)
    (hbefore : log.length < capacity → broken mem)
    (hdata : log.length < capacity →
      broken { mem with
        flash := mem.flash.programHalfWord (slotAddress page (log.length + 1)) data })
    (hbroken : ∀ flash, log.length < capacity →
      flash = programSlot mem.flash page (log.length + 1) virtAddress data →
      broken { mem with flash := flash })
    (hdone : ∀ flash, log.length < capacity →
      flash = programSlot mem.flash page (log.length + 1) virtAddress data →
      done { mem with flash := flash }) :
    Meets A (eeVerifyPageFullWriteVariable virtAddress data) done full broken mem := by
  apply Device.wp_look
  simp only [ret_bind, hfind, hholds.writeLoop hstatus]
  by_cases hspace : log.length < capacity
  · simp only [if_pos hspace]
    exact meets_op hA (hbefore hspace) (hdata hspace)
      (meets_last hA (hdata hspace) (hbroken _ hspace rfl) (hdone _ hspace rfl))
  · simp only [if_neg hspace]
    exact meets_pageFull (hfull (Nat.le_antisymm hholds.length_le (Nat.le_of_not_lt hspace)))

/-- The receiving shape with what is known about the transfer. -/
def Moving (tab : List Half) (old new : Values) (page : Page) (src dst : List Entry) (mem : Mem) :
    Prop :=
  mem.virtAddVarTab = tab ∧ Receiving mem.flash page src dst ∧ Copying tab old new src dst

theorem Moving.recoverable (h : Moving tab old new page src dst mem) :
    At tab (Recoverable tab old new) mem :=
  ⟨h.1, .receiving page src dst h.2.1 h.2.2⟩

/-- `dst'` extends `dst` by the values of `vars`. -/
structure Moves (new : Values) (vars : List Half) (dst dst' : List Entry) : Prop where
  value : ∀ a ∈ vars, latest a dst' = new a
  frame : ∀ a ≠ erased, a ∉ vars → latest a dst' = latest a dst
  first_eq : first dst ≠ erased → first dst' = first dst
  length_le : dst'.length ≤ dst.length + vars.length

theorem Moves.nil (new : Values) (dst : List Entry) : Moves new [] dst dst where
  value _ ha := absurd ha List.not_mem_nil
  frame _ _ _ := rfl
  first_eq _ := rfl
  length_le := Nat.le_refl _

theorem Moves.keep {a : Half} (h : latest a dst = new a) :
    Moves new [a] dst dst where
  value b hb := by
    rw [List.mem_singleton.1 hb]
    exact h
  frame _ _ _ := rfl
  first_eq _ := rfl
  length_le := Nat.le_succ _

theorem Moves.cons {a : Half} {vars : List Half} {middle dst' : List Entry}
    (hfirst : Moves new [a] dst middle) (hrest : Moves new vars middle dst') (ha : a ≠ erased) :
    Moves new (a :: vars) dst dst' where
  value b hb := by
    by_cases hmem : b ∈ vars
    · exact hrest.value b hmem
    · have hba : b = a := (List.mem_cons.1 hb).resolve_right hmem
      rw [hba] at hmem ⊢
      rw [hrest.frame a ha hmem]
      exact hfirst.value a List.mem_cons_self
  frame b hb hmem := by
    rw [List.mem_cons, not_or] at hmem
    rw [hrest.frame b hb hmem.2]
    exact hfirst.frame b hb (fun h => hmem.1 (List.mem_singleton.1 h))
  first_eq h := by
    have hmiddle := hfirst.first_eq h
    rw [hrest.first_eq (by rw [hmiddle]; exact h), hmiddle]
  length_le := by
    have h1 := hfirst.length_le
    have h2 := hrest.length_le
    simp only [List.length_cons, List.length_nil] at h1 ⊢
    omega

/-- The receiver is full before `vars` were all moved. -/
def Blocked (src : List Entry) (vars : List Half) (dst dst' : List Entry) : Prop :=
  dst'.length = capacity ∧ capacity < dst.length + vars.length ∧
    ∃ a ∈ vars, a ≠ first dst' ∧ latest a src ≠ none

theorem Blocked.cons {a : Half} {vars : List Half} {middle dst' : List Entry}
    (hfirst : Moves new [a] dst middle) (hrest : Blocked src vars middle dst') :
    Blocked src (a :: vars) dst dst' := by
  obtain ⟨hlength, hspace, b, hb, hne, hvalue⟩ := hrest
  have h1 := hfirst.length_le
  refine ⟨hlength, ?_, b, List.mem_cons_of_mem a hb, hne, hvalue⟩
  simp only [List.length_cons, List.length_nil] at h1 ⊢
  omega

theorem Blocked.of_head {a : Half} {vars : List Half} {dst' : List Entry}
    (h : Blocked src [a] dst dst') : Blocked src (a :: vars) dst dst' := by
  obtain ⟨hlength, hspace, b, hb, hne, hvalue⟩ := h
  refine ⟨hlength, ?_, b, List.mem_cons.2 (Or.inl (List.mem_singleton.1 hb)), hne, hvalue⟩
  simp only [List.length_cons, List.length_nil] at hspace ⊢
  omega

theorem Copying.moves_concat (h : Copying tab old new src dst) {a value : Half}
    (ha : a ≠ erased) (hne : a ≠ first dst) (hvalue : latest a src = some value) :
    Moves new [a] dst (dst ++ [(a, value)]) where
  value b hb := by
    rw [List.mem_singleton.1 hb, latest_concat_self, h.unwritten a ha hne, ← h.source a ha, hvalue]
  frame b _ hb := latest_concat_of_ne dst fun hab => hb (List.mem_singleton.2 hab.symm)
  first_eq hfirst := by
    rw [first_concat]
    split
    next hnil =>
        rw [hnil] at hfirst
        exact absurd rfl hfirst
    next => rfl
  length_le := by
    rw [List.length_append]
    exact Nat.le_refl _

theorem Copying.latest_of_missing (h : Copying tab old new src dst) {a : Half} (ha : a ≠ erased)
    (hne : a ≠ first dst) (hnone : latest a src = none) : latest a dst = new a := by
  rw [h.unwritten a ha hne, ← h.source a ha, hnone]
  rcases h.copied a ha hne with hcopied | ⟨-, hcopied⟩
  · exact hcopied
  · rw [hcopied, ← h.source a ha, hnone]

/-- Transferring one variable appends its value, or leaves the receiver alone
when the variable was never written. -/
theorem meets_transferVariable (hA : Honest A) (h : Moving tab old new page src dst mem) {a : Half}
    (ha : a ≠ erased) (hmem : a ∈ tab) (hne : a ≠ first dst) :
    Meets A (transferVariable a)
      (fun m => ∃ dst', Moving tab old new page src dst' m ∧ Moves new [a] dst dst')
      (fun m => Moving tab old new page src dst m ∧ Blocked src [a] dst dst)
      (At tab (Recoverable tab old new)) mem := by
  obtain ⟨htab, hshape, hcopying⟩ := h
  apply Device.wp_look
  simp only [ret_bind, hshape.read ha]
  cases hvalue : latest a src with
  | none =>
      refine Device.wp_assign (meets_complete ⟨dst, ⟨htab, hshape, hcopying⟩, ?_⟩)
      exact Moves.keep (hcopying.latest_of_missing ha hne hvalue)
  | some value =>
      refine Device.wp_assign ?_
      have hrecover : ∀ {flash : Memory} {dst' : List Entry}, Receiving flash page src dst' →
          Copying tab old new src dst' → Recoverable tab old new flash :=
        fun hshape hcopying => .receiving page src _ hshape hcopying
      refine meets_verify hA hshape.find_write hshape.2 (by decide) (fun hfull => ?_)
        (fun _ => ⟨htab, hrecover hshape hcopying⟩)
        (fun hspace => ⟨htab, hrecover (hshape.programData hspace value) (hcopying.tear value)⟩)
        (fun flash hspace hflash => ⟨htab, ?_⟩) (fun flash hspace hflash => ?_)
      · refine ⟨⟨htab, hshape, hcopying⟩, hfull, ?_, a, List.mem_singleton_self a, hne, ?_⟩
        · simp [hfull]
        · rw [hvalue]
          exact Option.some_ne_none value
      · rw [hflash]
        exact hrecover (hshape.programEntry hspace ha value) (hcopying.concat ha hmem hne hvalue)
      · rw [hflash]
        exact ⟨_, ⟨htab, hshape.programEntry hspace ha value,
          hcopying.concat ha hmem hne hvalue⟩, hcopying.moves_concat ha hne hvalue⟩

/-- The transfer loop moves every variable but the one written, which is in the
first slot of the receiver already. -/
theorem meets_transferLoop (hA : Honest A) (hvirt : virtAddress ≠ erased) (vars : List Half) :
    ∀ {dst : List Entry} {mem : Mem}, Moving tab old new page src dst mem →
      first dst = virtAddress → (∀ a ∈ vars, a ∈ tab ∧ a ≠ erased) →
      Meets A (transferLoop virtAddress vars)
        (fun m => ∃ dst', Moving tab old new page src dst' m ∧
          Moves new (vars.filter (· ≠ virtAddress)) dst dst')
        (fun m => ∃ dst', Moving tab old new page src dst' m ∧
          Blocked src (vars.filter (· ≠ virtAddress)) dst dst')
        (At tab (Recoverable tab old new)) mem := by
  induction vars with
  | nil =>
      intro dst mem h _ _
      exact meets_complete ⟨dst, h, Moves.nil new dst⟩
  | cons a rest ih =>
      intro dst mem h hfirst hvars
      obtain ⟨hmem, ha⟩ := hvars a List.mem_cons_self
      have hrest : ∀ b ∈ rest, b ∈ tab ∧ b ≠ erased :=
        fun b hb => hvars b (List.mem_cons_of_mem a hb)
      by_cases hne : a = virtAddress
      · rw [transferLoop, if_neg (not_not.2 hne), List.filter_cons_of_neg (by simpa using hne)]
        exact ih h hfirst hrest
      · rw [transferLoop, if_pos hne, List.filter_cons_of_pos (by simpa using hne)]
        have hstep := meets_transferVariable hA h ha hmem (by rw [hfirst]; exact hne)
        refine meets_then (meets_mono hstep (fun _ hm => hm) ?_ fun _ hm => hm) ?_
        · rintro m ⟨hm, hblocked⟩
          exact ⟨dst, hm, hblocked.of_head⟩
        · rintro m ⟨middle, hm, hmoves⟩
          have hmiddle : first middle = virtAddress := by
            rw [hmoves.first_eq (by rw [hfirst]; exact hvirt), hfirst]
          refine meets_mono (ih hm hmiddle hrest) ?_ ?_ fun _ hm => hm
          · rintro m ⟨dst', hm, htail⟩
            exact ⟨dst', hm, hmoves.cons htail ha⟩
          · rintro m ⟨dst', hm, htail⟩
            exact ⟨dst', hm, htail.cons hmoves⟩

/-- Values after a complete page transfer caused by a write: variables outside
the table are gone. -/
def transferred (tab : List Half) (log : List Entry) (virtAddress data : Half) : Values :=
  fun a =>
    if a = virtAddress then some data else if a ∈ tab then latest a log else none

/-- The flash after a completed write. -/
def Written (tab : List Half) (page : Page) (log : List Entry) (virtAddress data : Half)
    (flash : Memory) : Prop :=
  log.length < capacity ∧ Clean flash page (log ++ [(virtAddress, data)]) ∨
    log.length = capacity ∧ ∃ log', Clean flash page.other log' ∧
      log'.length ≤ (tab.filter (· ≠ virtAddress)).length + 1 ∧
      ∀ a ≠ erased, latest a log' = transferred tab log virtAddress data a

/-- Values before and after a write. -/
def valuesOf (log : List Entry) : Values := fun a => latest a log

def written (log : List Entry) (virtAddress data : Half) : Values :=
  Function.update (valuesOf log) virtAddress (some data)

/-- A write stopped anywhere leaves the old values or the new ones recoverable. -/
def Interrupted (tab : List Half) (log : List Entry) (virtAddress data : Half) (flash : Memory) :
    Prop :=
  Recoverable tab (valuesOf log) (valuesOf log) flash ∨
    Recoverable tab (valuesOf log) (written log virtAddress data) flash

theorem agrees_valuesOf (tab : List Half) (log : List Entry) : Agrees tab (valuesOf log) log :=
  fun _ _ => Or.inl rfl

theorem written_of_ne {a : Half} (h : a ≠ virtAddress) :
    written log virtAddress data a = latest a log :=
  Function.update_of_ne h _ _

theorem written_self : written log virtAddress data virtAddress = some data :=
  Function.update_self _ _ _

theorem valuesOf_concat :
    valuesOf (log ++ [(virtAddress, data)]) = written log virtAddress data := by
  funext a
  by_cases h : a = virtAddress
  · rw [h, written_self]
    exact latest_concat_self virtAddress data log
  · rw [written_of_ne h]
    exact latest_concat_of_ne log (Ne.symm h)

theorem copying_start (tab : List Half) (log dst : List Entry) (hfirst : first dst = erased)
    (hdst : ∀ a ≠ erased, latest a dst = none) :
    Copying tab (valuesOf log) (valuesOf log) log dst where
  source _ _ := rfl
  written _ ha h := absurd (h.trans hfirst) ha
  unwritten _ _ _ := rfl
  copied a ha _ := Or.inl (hdst a ha)

/-- The entry that caused the transfer opens the receiver. -/
theorem copying_written (tab : List Half) (log : List Entry) :
    Copying tab (valuesOf log) (written log virtAddress data) log [(virtAddress, data)] where
  source _ _ := rfl
  written a _ h := by
    rw [show a = virtAddress from h, written_self]
    exact latest_concat_self virtAddress data []
  unwritten _ _ h := written_of_ne h
  copied _ _ h := Or.inl (latest_concat_of_ne [] (Ne.symm h))

/-- After the loop the receiver has every value of the table. -/
theorem Moving.latest_eq (h : Moving tab (valuesOf log) (written log virtAddress data) page log
      dst mem) (hfirst : first dst = virtAddress)
    (hmoves : Moves (written log virtAddress data) (tab.filter (· ≠ virtAddress))
      [(virtAddress, data)] dst) {a : Half} (ha : a ≠ erased) :
    latest a dst = transferred tab log virtAddress data a := by
  unfold transferred
  by_cases hav : a = virtAddress
  · rw [if_pos hav, h.2.2.written a ha (by rw [hfirst, hav]), hav, written_self]
  · rw [if_neg hav]
    by_cases hmem : a ∈ tab
    · rw [if_pos hmem, hmoves.value a (List.mem_filter.2 ⟨hmem, by simpa using hav⟩),
        written_of_ne hav]
    · rw [if_neg hmem, hmoves.frame a ha (fun h => hmem (List.mem_filter.1 h).1)]
      exact latest_concat_of_ne [] (Ne.symm hav)

theorem agrees_transferred (tab : List Half) (log log' : List Entry)
    (h : ∀ a ≠ erased, latest a log' = transferred tab log virtAddress data a) :
    Agrees tab (written log virtAddress data) log' := by
  intro a ha
  rw [h a ha]
  unfold transferred
  split
  next hav => exact Or.inl (by rw [hav, written_self])
  next hav =>
      split
      next hmem => exact Or.inl (written_of_ne hav).symm
      next hmem => exact Or.inr ⟨hmem, rfl⟩

theorem Moving.stuck {vars : List Half} {dst' : List Entry}
    (h : Moving tab old new page src dst' mem) (hvars : ∀ a ∈ vars, a ∈ tab)
    (hblocked : Blocked src vars dst dst') : At tab (Stuck tab old) mem := by
  obtain ⟨hlength, -, a, ha, hne, hvalue⟩ := hblocked
  exact ⟨h.1, page, src, dst', h.2.1, h.2.2.source, hlength, a, hvars a ha, hne, hvalue⟩

/-- The second half of `EE_PageTransfer`: copy, erase the old page, mark the new
one valid. -/
theorem meets_copyAndSwap (hA : Honest A) (htab : ∀ a ∈ tab, a ≠ erased)
    (hvirt : virtAddress ≠ erased) (hfull : log.length = capacity)
    (h : Moving tab (valuesOf log) (written log virtAddress data) page log
      [(virtAddress, data)] mem) :
    Meets A ((transferLoop virtAddress tab).bind fun eepromStatus =>
        if eepromStatus ≠ .complete then ret eepromStatus
        else (eeEraseSectorIfNotEmpty page.id).bind fun status =>
          if status ≠ .complete then ret (.flash status)
          else op (.programHalfWord page.other.base validPage) fun status => ret (.flash status))
      (At tab (Written tab page log virtAddress data))
      (fun m => At tab (Stuck tab (valuesOf log)) m ∧
        capacity < (tab.filter (· ≠ virtAddress)).length + 1)
      (At tab (Interrupted tab log virtAddress data)) mem := by
  have hloop := meets_transferLoop hA hvirt tab h rfl fun a ha => ⟨ha, htab a ha⟩
  refine meets_then (meets_mono hloop (fun _ hm => hm) ?_ fun m hm => hm.mono Or.inr) ?_
  · rintro m ⟨dst', hm, hblocked⟩
    refine ⟨hm.stuck (fun a ha => (List.mem_filter.1 ha).1) hblocked, ?_⟩
    have hspace := hblocked.2.1
    rw [List.length_singleton] at hspace
    omega
  · rintro m ⟨dst', hm, hmoves⟩
    have hfirst : first dst' = virtAddress := hmoves.first_eq hvirt
    have hlatest : ∀ a ≠ erased, latest a dst' = transferred tab log virtAddress data a :=
      fun a ha => hm.latest_eq hfirst hmoves ha
    have hagrees := agrees_transferred tab log dst' hlatest
    have hlength := hmoves.length_le
    rw [List.length_singleton, Nat.add_comm] at hlength
    have hpromoted := hm.2.1.erase
    refine meets_erase hA (fun status hstatus => if_pos hstatus) (hm.recoverable.mono Or.inr)
      ⟨hm.1, Or.inr (.promoted page.other dst' hpromoted hagrees)⟩ (fun hblank => ?_) ?_
    · have hstatus := hm.2.1.1.status_eq
      rw [hblank.status] at hstatus
      exact absurd hstatus (by decide)
    · have hclean := hpromoted.markValid
      exact meets_last hA ⟨hm.1, Or.inr (.promoted page.other dst' hpromoted hagrees)⟩
        ⟨hm.1, Or.inr (.clean page.other dst' hclean hagrees)⟩
        ⟨hm.1, Or.inr ⟨hfull, dst', hclean, hlength, hlatest⟩⟩

/-- `EE_PageTransfer` from a full page. -/
theorem meets_pageTransfer (hA : Honest A) (htab : ∀ a ∈ tab, a ≠ erased)
    (hvirt : virtAddress ≠ erased) (hmem : mem.virtAddVarTab = tab)
    (h : Clean mem.flash page log) (hfull : log.length = capacity) :
    Meets A (eePageTransfer virtAddress data)
      (At tab (Written tab page log virtAddress data))
      (fun m => At tab (Stuck tab (valuesOf log)) m ∧
        capacity < (tab.filter (· ≠ virtAddress)).length + 1)
      (At tab (Interrupted tab log virtAddress data)) mem := by
  have hstart : ∀ {flash : Memory} {dst : List Entry}, Receiving flash page log dst →
      first dst = erased → (∀ a ≠ erased, latest a dst = none) →
      Interrupted tab log virtAddress data flash := fun hshape hfirst hdst =>
    Or.inl (.receiving page log _ hshape (copying_start tab log _ hfirst hdst))
  have hmark := h.markReceiving
  apply Device.wp_look
  simp only [ret_bind, h.find_read, hmem]
  refine meets_op hA ⟨hmem, Or.inl (.clean page log h (agrees_valuesOf tab log))⟩
    ⟨hmem, hstart hmark rfl fun _ _ => rfl⟩ ?_
  refine meets_then ?_ fun m hm => meets_copyAndSwap hA htab hvirt hfull hm
  refine meets_verify hA hmark.find_write hmark.2 (by decide)
    (fun habs => absurd habs (by decide)) (fun _ => ⟨hmem, hstart hmark rfl fun _ _ => rfl⟩)
    (fun hspace => ⟨hmem, hstart (hmark.programData hspace data) (first_tear [] data)
      fun a ha => latest_tear ha [] data⟩)
    (fun flash hspace hflash => ⟨hmem, Or.inr ?_⟩) (fun flash hspace hflash => ?_)
  · rw [hflash]
    exact .receiving page log _ (hmark.programEntry hspace hvirt data) (copying_written tab log)
  · rw [hflash]
    exact ⟨hmem, hmark.programEntry hspace hvirt data, copying_written tab log⟩

/-- `EE_WriteVariable` on a page that is valid while the other one is erased. -/
theorem meets_writeVariable (hA : Honest A) (htab : ∀ a ∈ tab, a ≠ erased)
    (hvirt : virtAddress ≠ erased) (hmem : mem.virtAddVarTab = tab)
    (h : Clean mem.flash page log) :
    Meets A (eeWriteVariable virtAddress data)
      (At tab (Written tab page log virtAddress data))
      (fun m => At tab (Stuck tab (valuesOf log)) m ∧ log.length = capacity ∧
        capacity < (tab.filter (· ≠ virtAddress)).length + 1)
      (At tab (Interrupted tab log virtAddress data)) mem := by
  have hverify : Meets A (eeVerifyPageFullWriteVariable virtAddress data)
      (At tab (Written tab page log virtAddress data))
      (fun m => m = mem ∧ log.length = capacity)
      (At tab (Interrupted tab log virtAddress data)) mem := by
    refine meets_verify hA h.find_write h.1 (by decide) (fun hfull => ⟨rfl, hfull⟩)
      (fun _ => ⟨hmem, Or.inl (.clean page log h (agrees_valuesOf tab log))⟩)
      (fun hspace => ⟨hmem, Or.inl (.clean page _ (h.programData hspace data)
        ((agrees_valuesOf tab log).tear data))⟩)
      (fun flash hspace hflash => ⟨hmem, Or.inr ?_⟩) (fun flash hspace hflash => ⟨hmem, ?_⟩)
    · rw [hflash]
      refine .clean page _ (h.programEntry hspace hvirt data) ?_
      rw [← valuesOf_concat]
      exact agrees_valuesOf tab _
    · rw [hflash]
      exact Or.inl ⟨hspace, h.programEntry hspace hvirt data⟩
  refine Device.wp_bind (Device.wp_mono hverify (fun status m hm => ?_) fun _ hm => hm)
  cases status with
  | flash status => exact Device.wp_ret hm
  | pageFull =>
      obtain ⟨rfl, hfull⟩ := hm
      exact meets_mono (meets_pageTransfer hA htab hvirt hmem h hfull) (fun _ hm => hm)
        (fun _ hm => ⟨hm.1, hfull, hm.2⟩) fun _ hm => hm
  | noValidPage => exact hm.elim

theorem Written.latest_eq {flash : Memory}
    (h : Written tab page log virtAddress data flash) :
    ∃ page' log', Clean flash page' log' ∧
      ∀ a ∈ tab, a ≠ erased → latest a log' = written log virtAddress data a := by
  rcases h with ⟨-, hclean⟩ | ⟨-, log', hclean, -, hlatest⟩
  · exact ⟨page, _, hclean, fun a _ _ => congrFun valuesOf_concat a⟩
  · refine ⟨page.other, log', hclean, fun a hmem ha => ?_⟩
    rcases agrees_transferred tab log log' hlatest a ha with h | ⟨h, -⟩
    · exact h
    · exact absurd hmem h

end

end Bldc.Eeprom
