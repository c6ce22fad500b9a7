import Bldc.Eeprom.Transfer

/-!
# Recovery

What `EE_Init` does from every shape a write or an earlier `EE_Init` can leave.
A transfer that was under way is finished; the receiver is marked valid before
the old page is erased, so power lost in between leaves both pages valid.
-/

namespace Bldc.Eeprom

open Foundation Foundation.Program Flash

section

variable {A : Answer Status → Prop} {done full broken : Mem → Prop} {mem : Mem}
variable {tab : List Half} {old new : Values} {page : Page} {log src dst : List Entry}

/-- The address half of slot 1, at `receiver.base + 6`. -/
theorem Holds.half_first {flash : Memory} {status : Half} (h : Holds flash page status log) :
    flash.half (page.base + 6) = first log := by
  have hslot := congrArg Prod.fst (h.slot_eq 0 (by decide))
  rw [show log.getD 0 blank = log.headD blank from by cases log <;> rfl] at hslot
  exact hslot

/-- The transfer loop of `EE_Init` skips the variable in the first slot of the
receiver, whose value there is newer than that of the old page. -/
theorem meets_initLoop (hA : Honest A) (vars : List Half) :
    ∀ {dst : List Entry} {mem : Mem} {varIdx : Nat} {x : Int},
      Moving tab old new page src dst mem → x < varIdx → (∀ a ∈ vars, a ∈ tab ∧ a ≠ erased) →
      Meets A (initLoop page.other vars varIdx x)
        (fun m => ∃ dst', Moving tab old new page src dst' m ∧ Moves new vars dst dst')
        (fun m => ∃ dst', Moving tab old new page src dst' m ∧ Blocked src vars dst dst')
        (At tab (Recoverable tab old new)) mem := by
  induction vars with
  | nil =>
      intro dst mem varIdx x h _ _
      exact meets_complete ⟨dst, h, Moves.nil new dst⟩
  | cons a rest ih =>
      intro dst mem varIdx x h hx hvars
      obtain ⟨hmem, ha⟩ := hvars a List.mem_cons_self
      have hrest : ∀ b ∈ rest, b ∈ tab ∧ b ≠ erased :=
        fun b hb => hvars b (List.mem_cons_of_mem a hb)
      have hcons : ∀ {middle : List Entry} {m : Mem} {x : Int}, x < (varIdx + 1 : Nat) →
          Moving tab old new page src middle m → Moves new [a] dst middle →
          Meets A (initLoop page.other rest (varIdx + 1) x)
            (fun m => ∃ dst', Moving tab old new page src dst' m ∧ Moves new (a :: rest) dst dst')
            (fun m => ∃ dst', Moving tab old new page src dst' m ∧ Blocked src (a :: rest) dst dst')
            (At tab (Recoverable tab old new)) m := by
        intro middle m x hx hm hmoves
        refine meets_mono (ih hm hx hrest) ?_ ?_ fun _ hm => hm
        · rintro m ⟨dst', hm, htail⟩
          exact ⟨dst', hm, hmoves.cons htail ha⟩
        · rintro m ⟨dst', hm, htail⟩
          exact ⟨dst', hm, htail.cons hmoves⟩
      apply Device.wp_look
      simp only [ret_bind, h.2.1.2.half_first]
      by_cases hfirst : first dst = a
      · simp only [if_pos hfirst, ne_eq, not_true_eq_false, if_false]
        exact hcons (by omega) h (Moves.keep (h.2.2.written a ha hfirst.symm))
      · rw [if_neg hfirst, if_pos (by omega : (varIdx : Int) ≠ x)]
        have hstep := meets_transferVariable hA h ha hmem (Ne.symm hfirst)
        refine meets_then (meets_mono hstep (fun _ hm => hm) ?_ fun _ hm => hm) ?_
        · rintro m ⟨hm, hblocked⟩
          exact ⟨dst, hm, hblocked.of_head⟩
        · rintro m ⟨middle, hm, hmoves⟩
          exact hcons (by omega) hm hmoves

/-! ## The branches of `EE_Init` -/

theorem meets_initErase (hA : Honest A) (hmem : mem.virtAddVarTab = tab)
    (h : Clean mem.flash page log) :
    Meets A (initErase page.other) (At tab fun flash => Clean flash page log) full
      (At tab fun flash => Clean flash page log) mem := by
  refine meets_erase hA (fun status _ => rfl) ⟨hmem, h⟩ ⟨hmem, h.eraseOther⟩
    (fun _ => meets_complete ⟨hmem, h⟩) (meets_complete ⟨hmem, h.eraseOther⟩)

theorem meets_initFinish (hA : Honest A) (hmem : mem.virtAddVarTab = tab)
    (h : Promoted mem.flash page log) :
    Meets A (initFinish page) (At tab fun flash => Clean flash page log) full
      (At tab fun flash => Promoted flash page log ∨ Clean flash page log) mem := by
  refine meets_erase hA (fun status hstatus => if_pos hstatus) ⟨hmem, Or.inl h⟩
    ⟨hmem, Or.inl h.eraseOther⟩ (fun _ => ?_) ?_
  · exact meets_last hA ⟨hmem, Or.inl h⟩ ⟨hmem, Or.inr h.markValid⟩ ⟨hmem, h.markValid⟩
  · exact meets_last hA ⟨hmem, Or.inl h.eraseOther⟩ ⟨hmem, Or.inr h.eraseOther.markValid⟩
      ⟨hmem, h.eraseOther.markValid⟩

/-- What `EE_Init` ends with when it finishes: one valid page with the new
values. -/
def Recovered (tab : List Half) (values : Values) (flash : Memory) : Prop :=
  ∃ page log, Clean flash page log ∧ Agrees tab values log

theorem meets_initTransfer (hA : Honest A) (htab : ∀ a ∈ tab, a ≠ erased)
    (h : Moving tab old new page src dst mem) :
    Meets A (initTransfer page.other) (At tab (Recovered tab new)) (At tab (Stuck tab old))
      (At tab fun flash => Recoverable tab old new flash ∨ BothValid flash) mem := by
  apply Device.wp_look
  simp only [ret_bind, h.1]
  have hloop : Meets A (initLoop page.other tab 0 (-1)) _ _ _ mem :=
    meets_initLoop hA tab h (by decide) fun a ha => ⟨ha, htab a ha⟩
  refine meets_then (meets_mono hloop (fun _ hm => hm) ?_ fun m hm => hm.mono Or.inl) ?_
  · rintro m ⟨dst', hm, hblocked⟩
    exact hm.stuck (fun a ha => ha) hblocked
  · rintro m ⟨dst', hm, hmoves⟩
    have hagrees := hm.2.2.agrees hmoves.value
    obtain ⟨hboth, hother⟩ := hm.2.1.markValid
    refine meets_op hA (hm.recoverable.mono Or.inl) ⟨hm.1, Or.inr hboth⟩ ?_
    have hclean : Clean ((m.flash.programHalfWord page.other.base validPage).eraseSector page.id)
        page.other dst' := by
      have herase := hother.erase_other
      rw [Page.other_other] at herase
      exact ⟨herase, by rw [Page.other_other]; exact blank_erase _ page⟩
    rw [Page.other_other]
    refine meets_erase hA (fun status _ => rfl) ⟨hm.1, Or.inr hboth⟩
      ⟨hm.1, Or.inl (.clean page.other dst' hclean hagrees)⟩ (fun hblank => ?_)
      (meets_complete ⟨hm.1, page.other, dst', hclean, hagrees⟩)
    -- the old page is still marked valid, so it is not blank
    have hstatus := hblank.status
    cases page
    · exact absurd (hboth.1.symm.trans hstatus) (by decide)
    · exact absurd (hboth.2.symm.trans hstatus) (by decide)

/-- `EE_Format` ends with an empty page 0, whatever was there before. -/
theorem meets_initFormat (hA : Honest A) (hmem : mem.virtAddVarTab = tab) :
    Meets A initFormat (At tab fun flash => Clean flash .page0 []) full
      (fun m => m.virtAddVarTab = tab) mem := by
  have hlast : ∀ {m : Mem}, m.virtAddVarTab = tab → Holds m.flash .page0 validPage [] →
      Meets A ((eeEraseSectorIfNotEmpty Page.page1.id).bind fun status => ret (.flash status))
        (At tab fun flash => Clean flash .page0 []) full (fun m => m.virtAddVarTab = tab) m := by
    intro m hm hholds
    exact meets_erase hA (fun status _ => rfl) hm hm
      (fun hblank => meets_complete ⟨hm, hholds, hblank⟩)
      (meets_complete ⟨hm, hholds.erase_other, blank_erase m.flash .page1⟩)
  have hmark : ∀ {m : Mem}, m.virtAddVarTab = tab → Blank m.flash .page0 →
      Meets A (op (.programHalfWord Page.page0.base validPage) fun status =>
        Program.bind (if status ≠ .complete then ret status
          else eeEraseSectorIfNotEmpty Page.page1.id) fun status => ret (.flash status))
        (At tab fun flash => Clean flash .page0 []) full (fun m => m.virtAddVarTab = tab) m := by
    intro m hm hblank
    refine Device.wp_op (hlast hm (hblank.holds.programStatus validPage))
      (fun status performed hfail => ?_) fun _ => hm
    have hstatus := hA status performed hfail
    rw [if_pos hstatus]
    refine Device.wp_ret (Or.inr ⟨hstatus, ⟨performed, hfail⟩, ?_⟩)
    cases performed <;> exact hm
  have hassoc : initFormat = (eeEraseSectorIfNotEmpty Page.page0.id).bind fun status =>
      Program.bind (if status ≠ .complete then ret status else
        op (.programHalfWord Page.page0.base validPage) fun status =>
          if status ≠ .complete then ret status else eeEraseSectorIfNotEmpty Page.page1.id)
        fun status => ret (.flash status) := Program.bind_assoc _ _ _
  rw [hassoc]
  refine meets_erase hA (fun status hstatus => ?_) hmem hmem (fun hblank => hmark hmem hblank)
    (hmark hmem (blank_erase mem.flash .page0))
  rw [if_pos hstatus]
  rfl

/-! ## `EE_Init` by shape -/

theorem initSwitch_clean (h : Clean mem.flash page log) :
    initSwitch (pageStatus mem.flash .page0) (pageStatus mem.flash .page1) =
      initErase page.other := by
  have hpage := h.1.status_eq
  have hother := h.2.status
  cases page <;> (simp only [Page.other] at hother; rw [hpage, hother]; rfl)

theorem initSwitch_promoted (h : Promoted mem.flash page log) :
    initSwitch (pageStatus mem.flash .page0) (pageStatus mem.flash .page1) =
      initFinish page := by
  have hpage := h.1.status_eq
  have hother := h.2.status
  cases page <;> (simp only [Page.other] at hother; rw [hpage, hother]; rfl)

theorem initSwitch_receiving (h : Receiving mem.flash page src dst) :
    initSwitch (pageStatus mem.flash .page0) (pageStatus mem.flash .page1) =
      initTransfer page.other := by
  have hpage := h.1.status_eq
  have hother := h.2.status_eq
  cases page <;> (simp only [Page.other] at hother; rw [hpage, hother]; rfl)

theorem initSwitch_bothValid (h : BothValid mem.flash) :
    initSwitch (pageStatus mem.flash .page0) (pageStatus mem.flash .page1) = initFormat := by
  rw [h.1, h.2]
  rfl

theorem initSwitch_blank (h : ∀ page, Blank mem.flash page) :
    initSwitch (pageStatus mem.flash .page0) (pageStatus mem.flash .page1) = initFormat := by
  rw [(h .page0).status, (h .page1).status]
  rfl

theorem meets_init {program : EeProgram EeStatus}
    (hswitch : initSwitch (pageStatus mem.flash .page0) (pageStatus mem.flash .page1) = program)
    (h : Meets A program done full broken mem) : Meets A eeInit done full broken mem := by
  apply Device.wp_look
  simp only [ret_bind, hswitch]
  exact h

theorem meets_init_clean (hA : Honest A) (hmem : mem.virtAddVarTab = tab)
    (h : Clean mem.flash page log) :
    Meets A eeInit (At tab fun flash => Clean flash page log) full
      (At tab fun flash => Clean flash page log) mem :=
  meets_init (initSwitch_clean h) (meets_initErase hA hmem h)

theorem meets_init_bothValid (hA : Honest A) (hmem : mem.virtAddVarTab = tab)
    (h : BothValid mem.flash) :
    Meets A eeInit (At tab fun flash => Clean flash .page0 []) full
      (fun m => m.virtAddVarTab = tab) mem :=
  meets_init (initSwitch_bothValid h) (meets_initFormat hA hmem)

theorem meets_init_blank (hA : Honest A) (hmem : mem.virtAddVarTab = tab)
    (h : ∀ page, Blank mem.flash page) :
    Meets A eeInit (At tab fun flash => Clean flash .page0 []) full
      (fun m => m.virtAddVarTab = tab) mem :=
  meets_init (initSwitch_blank h) (meets_initFormat hA hmem)

/-- `EE_Init` finishes any interrupted write or recovery, unless the receiver
has run full; stopped itself, it leaves such a state again or both pages valid. -/
theorem meets_init_recoverable (hA : Honest A) (htab : ∀ a ∈ tab, a ≠ erased)
    (h : At tab (Recoverable tab old new) mem) :
    Meets A eeInit (At tab (Recovered tab new)) (At tab (Stuck tab old))
      (At tab fun flash => Recoverable tab old new flash ∨ BothValid flash) mem := by
  obtain ⟨hmem, hrecoverable⟩ := h
  cases hrecoverable with
  | clean page log shape agrees =>
      refine meets_mono (meets_init_clean hA hmem shape) ?_ (fun _ hm => hm) ?_
      · exact fun m hm => ⟨hm.1, page, log, hm.2, agrees⟩
      · exact fun m hm => ⟨hm.1, Or.inl (.clean page log hm.2 agrees)⟩
  | promoted page log shape agrees =>
      refine meets_init (initSwitch_promoted shape) ?_
      refine meets_mono (meets_initFinish hA hmem shape) ?_ (fun _ hm => hm) ?_
      · exact fun m hm => ⟨hm.1, page, log, hm.2, agrees⟩
      · rintro m ⟨hm, hpromoted | hclean⟩
        · exact ⟨hm, Or.inl (.promoted page log hpromoted agrees)⟩
        · exact ⟨hm, Or.inl (.clean page log hclean agrees)⟩
  | receiving page src dst shape copying =>
      exact meets_init (initSwitch_receiving shape)
        (meets_initTransfer hA htab ⟨hmem, shape, copying⟩)

/-! ## A full receiver

Every interrupted recovery leaves its copies in the receiver, so after enough of
them the receiver is full. From then on `EE_Init` and `EE_WriteVariable` return
`PAGE_FULL` and the old page stays readable.
-/

/-- The table and the flash are as given; only `DataVar` may differ. -/
def Same (mem m : Mem) : Prop := m.virtAddVarTab = mem.virtAddVarTab ∧ m.flash = mem.flash

theorem meets_verify_full (hA : Honest A) (h : Receiving mem.flash page src dst)
    (hfull : dst.length = capacity) (virtAddress data : Half) :
    Meets A (eeVerifyPageFullWriteVariable virtAddress data) (fun _ => False) (Same mem)
      (fun _ => False) mem :=
  meets_verify hA h.find_write h.2 (by decide) (fun _ => ⟨rfl, rfl⟩)
    (fun hspace => absurd hfull (Nat.ne_of_lt hspace))
    (fun hspace => absurd hfull (Nat.ne_of_lt hspace))
    (fun _ hspace _ => absurd hfull (Nat.ne_of_lt hspace))
    (fun _ hspace _ => absurd hfull (Nat.ne_of_lt hspace))

theorem meets_transferVariable_full (hA : Honest A) (h : Receiving mem.flash page src dst)
    (hfull : dst.length = capacity) {a : Half} (ha : a ≠ erased) :
    Meets A (transferVariable a) (fun m => Same mem m ∧ latest a src = none) (Same mem)
      (fun _ => False) mem := by
  apply Device.wp_look
  simp only [ret_bind, h.read ha]
  cases hvalue : latest a src with
  | none => exact Device.wp_assign (meets_complete ⟨⟨rfl, rfl⟩, rfl⟩)
  | some value =>
      have hread : Receiving { mem with dataVar := value }.flash page src dst := h
      have hwrite := meets_verify_full hA hread hfull a value
      exact Device.wp_assign (meets_mono hwrite (fun _ hm => hm.elim) (fun _ hm => hm)
        fun _ hm => hm)

theorem meets_initLoop_full (hA : Honest A) (vars : List Half) :
    ∀ {m : Mem} {varIdx : Nat} {x : Int}, Same mem m → x < varIdx →
      Receiving mem.flash page src dst → dst.length = capacity → (∀ a ∈ vars, a ≠ erased) →
      (∃ a ∈ vars, a ≠ first dst ∧ latest a src ≠ none) →
      Meets A (initLoop page.other vars varIdx x) (fun _ => False) (Same mem) (fun _ => False)
        m := by
  induction vars with
  | nil =>
      rintro m varIdx x _ _ _ _ _ ⟨a, ha, _⟩
      exact absurd ha List.not_mem_nil
  | cons a rest ih =>
      intro m varIdx x hsame hx hshape hfull hvars hcopy
      obtain ⟨htab, hflash⟩ := hsame
      have hrest : ∀ b ∈ rest, b ≠ erased := fun b hb => hvars b (List.mem_cons_of_mem a hb)
      have hleft : (a = first dst ∨ latest a src = none) →
          ∃ b ∈ rest, b ≠ first dst ∧ latest b src ≠ none := by
        intro hskip
        obtain ⟨b, hb, hne, hvalue⟩ := hcopy
        rcases List.mem_cons.1 hb with rfl | hb
        · exact (hskip.elim hne hvalue).elim
        · exact ⟨b, hb, hne, hvalue⟩
      rw [← hflash] at hshape
      apply Device.wp_look
      simp only [ret_bind, hshape.2.half_first]
      by_cases hfirst : first dst = a
      · simp only [if_pos hfirst, ne_eq, not_true_eq_false, if_false]
        rw [hflash] at hshape
        exact ih ⟨htab, hflash⟩ (by omega) hshape hfull hrest (hleft (Or.inl hfirst.symm))
      · rw [if_neg hfirst, if_pos (by omega : (varIdx : Int) ≠ x)]
        have hstep := meets_transferVariable_full hA hshape hfull (hvars a List.mem_cons_self)
        refine meets_then (meets_mono hstep (fun _ hm => hm) (fun m' hm => ?_) fun _ hm => hm) ?_
        · exact ⟨hm.1.trans htab, hm.2.trans hflash⟩
        · rintro m' ⟨hm, hnone⟩
          rw [hflash] at hshape
          exact ih ⟨hm.1.trans htab, hm.2.trans hflash⟩ (by omega) hshape hfull hrest
            (hleft (Or.inr hnone))

theorem meets_init_stuck (hA : Honest A) (htab : ∀ a ∈ tab, a ≠ erased)
    (h : At tab (Stuck tab old) mem) :
    Meets A eeInit (fun _ => False) (At tab (Stuck tab old)) (fun _ => False) mem := by
  obtain ⟨hmem, page, src, dst, hshape, hsource, hfull, hcopy⟩ := h
  refine meets_init (initSwitch_receiving hshape) (Device.wp_look ?_)
  simp only [ret_bind, hmem]
  have hloop : Meets A (initLoop page.other tab 0 (-1)) _ _ _ mem :=
    meets_initLoop_full hA tab ⟨rfl, rfl⟩ (by decide) hshape hfull htab hcopy
  refine meets_then (meets_mono hloop (fun _ hm => hm) (fun m hm => ?_) fun _ hm => hm)
    fun _ hm => hm.elim
  refine ⟨hm.1.trans hmem, page, src, dst, ?_, hsource, hfull, hcopy⟩
  rw [hm.2]
  exact hshape

theorem meets_writeVariable_stuck (hA : Honest A) (h : At tab (Stuck tab old) mem)
    (virtAddress data : Half) :
    Meets A (eeWriteVariable virtAddress data) (fun _ => False) (At tab (Stuck tab old))
      (At tab (Stuck tab old)) mem := by
  obtain ⟨hmem, page, src, dst, hshape, hsource, hfull, hcopy⟩ := h
  have hstuck : ∀ {m : Mem}, m.virtAddVarTab = tab → Receiving m.flash page src dst →
      At tab (Stuck tab old) m :=
    fun hm hshape => ⟨hm, page, src, dst, hshape, hsource, hfull, hcopy⟩
  refine Device.wp_bind (Device.wp_mono (meets_verify_full hA hshape hfull virtAddress data)
    (fun status m hm => ?_) fun _ hm => hm.elim)
  cases status with
  | flash status =>
      rcases hm with ⟨-, hm⟩ | ⟨-, -, hm⟩
      · exact hm.elim
      · exact hm.elim
  | noValidPage => exact hm.elim
  | pageFull =>
      obtain ⟨hmtab, hflash⟩ := hm
      rw [← hflash] at hshape
      apply Device.wp_look
      simp only [ret_bind, hshape.find_read]
      have hmark := hshape.markReceiving
      refine meets_op hA (hstuck (hmtab.trans hmem) hshape) (hstuck (hmtab.trans hmem) hmark) ?_
      refine meets_then (meets_mono (meets_verify_full hA hmark hfull virtAddress data)
        (fun _ hm => hm) (fun m' hm => ?_) fun _ hm => hm.elim) fun _ hm => hm.elim
      refine hstuck (hm.1.trans (hmtab.trans hmem)) ?_
      rw [hm.2]
      exact hmark

end

end Bldc.Eeprom
