import Bldc.Conf.Survival

/-!
# Interrupted stores

A store writes its halfwords one variable at a time and nothing marks the set as
complete. When it is stopped, by a failing flash operation or by a power loss,
the halfwords written so far are new and the rest is old.
-/

namespace Bldc.Conf

open Foundation Foundation.Program Flash Eeprom Sys

/-- Every variable reads as given, or not at all. -/
def Shows (values : Values) (flash : Memory) : Prop :=
  ∀ a ≠ erased, readBack flash a = values a ∨ readBack flash a = none

/-- The first `k` halfwords of `new`, then those of `old`. -/
def mixed (old new : Bytes) (k j : Nat) : Half := if j < k then halfword new j else halfword old j

/-- The variables of a configuration read as the first `k` halfwords of `new`
followed by `old`, or not at all. -/
def Mixed (kind : Kind) (old new : Bytes) (k : Nat) (values : Values) : Prop :=
  ∀ j < kind.count, values (kind.virtAddress j) = some (mixed old new k j) ∨
    values (kind.virtAddress j) = none

section

variable {tab : List Half} {old new : Values} {flash : Memory} {mem : Mem}

theorem readBack_of_promoted {page : Page} {log : List Entry} (h : Promoted flash page log)
    (a : Half) : readBack flash a = none := by
  have hfind : eeFindValidPage flash .readFromValidPage = none := by
    have hpage := h.1.status_eq
    have hother := h.2.status
    cases page <;> simp_all [eeFindValidPage, Page.other, validPage, receiveData, erased]
  simp only [readBack, eeReadVariable, hfind]

theorem shows_of_agrees {page : Page} {log : List Entry} {values : Values}
    (hclean : Clean flash page log) (hagrees : Agrees tab values log) : Shows values flash := by
  intro a ha
  rw [hclean.readBack ha]
  exact (hagrees a ha).imp_right And.right

/-- What is read where a write was stopped, without a reset. -/
theorem shows_of_recoverable (h : Recoverable tab old new flash) :
    Shows old flash ∨ Shows new flash := by
  cases h with
  | clean page log shape agrees => exact Or.inr (shows_of_agrees shape agrees)
  | promoted page log shape agrees => exact Or.inl fun a _ => Or.inr (readBack_of_promoted shape a)
  | receiving page src dst shape copying =>
      refine Or.inl fun a ha => Or.inl ?_
      rw [shape.readBack ha, copying.source a ha]

theorem shows_of_stuck (h : Stuck tab old flash) : Shows old flash := by
  obtain ⟨page, src, dst, hshape, hsource, -⟩ := h
  intro a ha
  rw [hshape.readBack ha]
  exact Or.inl (hsource a ha)

/-- What is read after the next `conf_general_init`. -/
theorem shows_init (h : Recoverable virtAddVarTab old new mem.flash) :
    Shows old (Eeprom.device.run confGeneralInit mem).2.flash ∨
      Shows new (Eeprom.device.run confGeneralInit mem).2.flash := by
  have hinit := meets_init_recoverable honest_false (fun a => virtAddVarTab_ne_ones)
    (show At virtAddVarTab (Recoverable virtAddVarTab old new)
      { mem with virtAddVarTab := virtAddVarTab } from ⟨rfl, h⟩)
  rcases hinit.undisturbed with ⟨-, -, page, log, hclean, hagrees⟩ | ⟨-, -, hstuck⟩
  · exact Or.inr (shows_of_agrees hclean hagrees)
  · exact Or.inl (shows_of_stuck hstuck)

end

section

variable {kind : Kind} {old new : Bytes} {k : Nat} {log : List Entry}

theorem Mixed.shows {values : Values} {flash : Memory} (h : Mixed kind old new k values)
    (hshows : Shows values flash) : Mixed kind old new k (readBack flash) := by
  intro j hj
  rcases hshows _ (virtAddress_ne_erased kind hj) with heq | hnone
  · rw [heq]
    exact h j hj
  · exact Or.inr hnone

/-- Writing halfword `k` moves the seam by one. -/
theorem Mixed.written (h : Mixed kind old new k (valuesOf log)) (hk : k < kind.count) :
    Mixed kind old new (k + 1) (written log (kind.virtAddress k) (halfword new k)) := by
  intro j hj
  by_cases hjk : j = k
  · rw [hjk, written_self]
    exact Or.inl (congrArg some (if_pos (Nat.lt_succ_self k)).symm)
  · rw [written_of_ne fun heq => hjk (virtAddress_inj hj hk heq).2]
    have hmixed : mixed old new (k + 1) j = mixed old new k j := by
      unfold mixed
      by_cases hlt : j < k
      · rw [if_pos hlt, if_pos (by omega)]
      · rw [if_neg hlt, if_neg (by omega)]
    rw [hmixed]
    exact h j hj

theorem Mixed.agrees {values : Values} {tab : List Half} (h : Mixed kind old new k values)
    (hagrees : Agrees tab values log) : Mixed kind old new k (valuesOf log) := by
  intro j hj
  rcases hagrees _ (virtAddress_ne_erased kind hj) with heq | ⟨-, hnone⟩
  · rw [valuesOf, heq]
    exact h j hj
  · exact Or.inr hnone

end

/-- The flash that the next read of the configuration sees: as the store left it,
or after the boot that follows a power loss. -/
def flashToRead (out : Outcome System Status Bool) : Memory :=
  match out.result with
  | some _ => out.state.mem.flash
  | none => (Eeprom.device.run confGeneralInit out.state.mem).2.flash

/-- Operations may fail, with a status that says so, and power may be lost. -/
def AnyFault (answer : Answer Status) : Prop :=
  ∀ status performed, answer = .fail status performed → status ≠ .complete

theorem honest_anyFault : Honest AnyFault := fun status performed h => h status performed rfl

/-- A store leaves the configuration mixed at some halfword, however it ends. -/
theorem wp_storeLoop {kind : Kind} {old new : Bytes} (count : Nat) :
    ∀ {i : Nat} {mem : Mem} {page : Page} {log : List Entry},
      mem.virtAddVarTab = virtAddVarTab → Clean mem.flash page log →
      Mixed kind old new i (valuesOf log) → i + count ≤ kind.count →
      Eeprom.device.Wp AnyFault (storeLoop kind new count i)
        (fun _ m => ∃ k ≤ kind.count, Mixed kind old new k (readBack m.flash))
        (fun m => ∃ k ≤ kind.count,
          Mixed kind old new k (readBack (Eeprom.device.run confGeneralInit m).2.flash)) mem := by
  induction count with
  | zero =>
      intro i mem page log _ hclean hmixed hcount
      refine Device.wp_ret ⟨i, hcount, hmixed.shows ?_⟩
      exact shows_of_agrees hclean (agrees_valuesOf [] log)
  | succ count ih =>
      intro i mem page log hmem hclean hmixed hcount
      have hi : i < kind.count := by omega
      have hnext := hmixed.written hi
      have hwrite : Meets AnyFault (eeWriteVariable (kind.virtAddress i) (halfword new i)) _ _ _
          mem := meets_writeVariable honest_anyFault (fun a => virtAddVarTab_ne_ones)
        (virtAddress_ne_erased kind hi) hmem hclean
      refine Device.wp_bind (Device.wp_mono hwrite (fun status m hm => ?_) fun m hm => ?_)
      · cases status with
        | flash status =>
            rcases hm with ⟨rfl, hmem', hwritten⟩ | ⟨hstatus, -, -, hbroken⟩
            · obtain ⟨page', log', hclean', hagrees⟩ : ∃ page' log',
                  Clean m.flash page' log' ∧ Agrees virtAddVarTab
                    (written log (kind.virtAddress i) (halfword new i)) log' := by
                rcases hwritten with ⟨-, hclean'⟩ | ⟨-, log', hclean', -, hlatest⟩
                · refine ⟨page, _, hclean', ?_⟩
                  rw [← valuesOf_concat]
                  exact agrees_valuesOf _ _
                · exact ⟨page.other, log', hclean', agrees_transferred _ log log' hlatest⟩
              exact ih hmem' hclean' (hnext.agrees hagrees) (by omega)
            · rw [if_pos (by simpa using hstatus)]
              refine Device.wp_ret ?_
              rcases hbroken with hold | hnew
              · rcases shows_of_recoverable hold with hshows | hshows <;>
                  exact ⟨i, by omega, hmixed.shows hshows⟩
              · rcases shows_of_recoverable hnew with hshows | hshows
                · exact ⟨i, by omega, hmixed.shows hshows⟩
                · exact ⟨i + 1, hi, hnext.shows hshows⟩
        | pageFull => exact Device.wp_ret ⟨i, by omega, hmixed.shows (shows_of_stuck hm.1.2)⟩
        | noValidPage => exact hm.elim
      · rcases hm.2 with hold | hnew
        · rcases shows_init hold with hshows | hshows <;>
            exact ⟨i, by omega, hmixed.shows hshows⟩
        · rcases shows_init hnew with hshows | hshows
          · exact ⟨i, by omega, hmixed.shows hshows⟩
          · exact ⟨i + 1, hi, hnext.shows hshows⟩

/-- A configuration that reads as a mixture of halfwords is a mixture of bytes,
or the defaults. -/
theorem confGeneralRead_of_mixed (defaults : Defaults) {kind : Kind} {old new : Bytes} {k : Nat}
    {flash : Memory} (h : Mixed kind old new k (readBack flash)) (buffer : Bytes) :
    (∀ i < kind.size, confGeneralRead defaults kind flash buffer i = defaults kind i) ∨
      ∀ i < kind.size, confGeneralRead defaults kind flash buffer i =
        if i < 2 * k then new i else old i := by
  by_cases hmissing : ∃ j < kind.count, readBack flash (kind.virtAddress j) = none
  · obtain ⟨j, hj, hnone⟩ := hmissing
    exact Or.inl fun i hi => confGeneralRead_of_missing defaults hj hnone buffer hi
  · have hpresent : Present flash kind fun i => if i < 2 * k then new i else old i := ?_
    · exact Or.inr fun i hi => confGeneralRead_of_present defaults hpresent buffer hi
    intro j hj
    rw [(h j hj).resolve_right fun hnone => hmissing ⟨j, hj, hnone⟩, mixed, halfword, halfword,
      halfword]
    by_cases hlt : j < k
    · rw [if_pos hlt, if_pos (by omega), if_pos (by omega)]
    · rw [if_neg hlt, if_neg (by omega), if_neg (by omega)]

theorem exec_confGeneralStore_flash (kind : Kind) (conf : Bytes) (answers : List (Answer Status))
    (s : System) :
    (Sys.device.exec (confGeneralStore kind conf) answers s).result =
        (Eeprom.device.exec (storeLoop kind conf kind.count 0) answers s.mem).result ∧
      (Sys.device.exec (confGeneralStore kind conf) answers s).state.mem =
        (Eeprom.device.exec (storeLoop kind conf kind.count 0) answers s.mem).state := by
  have hexec := exec_confGeneralStore kind conf answers s
  simp only at hexec
  rw [hexec]
  cases hresult :
      (Eeprom.device.exec (storeLoop kind conf kind.count 0) answers s.mem).result with
  | none => exact ⟨rfl, rfl⟩
  | some isOk => exact ⟨rfl, mem_left_putMem _ _⟩

/-- However a store of `new` over a complete `old` ends, the configuration read
afterwards is the defaults, or begins with halfwords of `new` and continues with
those of `old`. -/
theorem interrupted_store_mixes (defaults : Defaults) (kind : Kind) (old new : Bytes) (s : System)
    (answers : List (Answer Status)) (hmem : s.mem.virtAddVarTab = virtAddVarTab)
    (hclean : ∃ page log, Clean s.mem.flash page log) (hold : Present s.mem.flash kind old)
    (hanswers : ∀ answer ∈ answers, AnyFault answer) (buffer : Bytes) :
    (∀ i < kind.size, confGeneralRead defaults kind
        (flashToRead (Sys.device.exec (confGeneralStore kind new) answers s)) buffer i =
        defaults kind i) ∨
      ∃ k ≤ kind.count, ∀ i < kind.size, confGeneralRead defaults kind
        (flashToRead (Sys.device.exec (confGeneralStore kind new) answers s)) buffer i =
        if i < 2 * k then new i else old i := by
  obtain ⟨page, log, hclean⟩ := hclean
  have hmixed : Mixed kind old new 0 (valuesOf log) := by
    intro j hj
    rw [valuesOf, ← hclean.readBack (virtAddress_ne_erased kind hj), hold j hj]
    exact Or.inl (congrArg some (if_neg (Nat.not_lt_zero j)).symm)
  have hwp := wp_storeLoop kind.count hmem hclean hmixed (by omega) answers hanswers
  obtain ⟨hresult, hstate⟩ := exec_confGeneralStore_flash kind new answers s
  suffices h : ∃ k ≤ kind.count, Mixed kind old new k (readBack
      (flashToRead (Sys.device.exec (confGeneralStore kind new) answers s))) by
    obtain ⟨k, hk, hread⟩ := h
    exact (confGeneralRead_of_mixed defaults hread buffer).imp_right fun h => ⟨k, hk, h⟩
  rw [flashToRead, hresult, hstate]
  rcases hexec : Eeprom.device.exec (storeLoop kind new kind.count 0) answers s.mem with
    ⟨result, m, rest⟩
  rw [hexec] at hwp
  cases result with
  | none => exact hwp
  | some isOk => exact hwp

/-- The system after an undisturbed store of a motor configuration. -/
def stored (start : System) (conf : Bytes) : System :=
  (Sys.device.run (confGeneralStore .mc conf) start).2

theorem stored_clean {start : System}
    (hstart : At virtAddVarTab (fun flash => Clean flash .page0 []) start.mem) (conf : Bytes) :
    At virtAddVarTab (fun flash => Clean flash .page0 (entries .mc conf 0 Kind.mc.count))
      (stored start conf).mem := by
  have hcount := count_mc
  have hcap : capacity = 4095 := rfl
  obtain ⟨-, hstored⟩ := run_storeLoop_append .mc conf Kind.mc.count 0 hstart.1 hstart.2
    (by omega) (by rw [List.length_nil]; omega)
  rw [List.nil_append] at hstored
  rw [stored, run_confGeneralStore, mem_left_putMem]
  exact hstored

theorem present_entries {flash : Memory} {page : Page} {conf : Bytes}
    (h : Clean flash page (entries .mc conf 0 Kind.mc.count)) : Present flash .mc conf := by
  intro j hj
  rw [h.readBack (virtAddress_ne_erased .mc hj), ← List.nil_append (entries .mc conf 0 _)]
  exact latest_entries_of_mem conf [] (by omega) (Nat.zero_le j) (by omega)

/-- A new controller on which one motor configuration has been stored. -/
def storedBoot (conf : Bytes) : System := stored firstBoot conf

theorem storedBoot_clean (conf : Bytes) :
    At virtAddVarTab (fun flash => Clean flash .page0 (entries .mc conf 0 Kind.mc.count))
      (storedBoot conf).mem := by
  rw [storedBoot]
  exact stored_clean firstBoot_clean conf

/-- Power lost after the first halfword. -/
theorem interrupted_store_mixes_storedBoot :
    (∀ i < Kind.mc.size, confGeneralRead (fun _ _ => 0) .mc (flashToRead (Sys.device.exec
        (confGeneralStore .mc fun _ => 2) [.done, .done, .cut] (storedBoot fun _ => 1)))
        (fun _ => 0) i = 0) ∨
      ∃ k ≤ Kind.mc.count, ∀ i < Kind.mc.size, confGeneralRead (fun _ _ => 0) .mc
        (flashToRead (Sys.device.exec (confGeneralStore .mc fun _ => 2) [.done, .done, .cut]
          (storedBoot fun _ => 1))) (fun _ => 0) i = if i < 2 * k then 2 else 1 := by
  obtain ⟨hmem, hclean⟩ := storedBoot_clean fun _ => 1
  exact interrupted_store_mixes (fun _ _ => 0) .mc (fun _ => 1) (fun _ => 2)
    (storedBoot fun _ => 1) [.done, .done, .cut] hmem ⟨_, _, hclean⟩ (present_entries hclean)
    (by simp [AnyFault]) fun _ => 0

/-! ## A store that is not all or nothing -/

section Exec

variable {m : Mem} {answers : List (Answer Status)} {virtAddress data : Half}
variable {page : Page} {log : List Entry}

theorem exec_write_done (h : Clean m.flash page log) (hspace : log.length < capacity) :
    Eeprom.device.exec (eeWriteVariable virtAddress data) (.done :: .done :: answers) m =
      ⟨some .complete,
        { m with flash := programSlot m.flash page (log.length + 1) virtAddress data },
        answers⟩ := by
  have hloop := h.1.writeLoop (by decide)
  rw [if_pos hspace] at hloop
  rw [eeWriteVariable, bind_eq, Device.exec_bind, exec_verify_done h.find_write hloop]
  rfl

theorem exec_write_fail (h : Clean m.flash page log) (hspace : log.length < capacity) :
    Eeprom.device.exec (eeWriteVariable virtAddress data)
      (.fail .errorProgram false :: answers) m = ⟨some (.flash .errorProgram), m, answers⟩ := by
  have hloop := h.1.writeLoop (by decide)
  rw [if_pos hspace] at hloop
  simp only [eeWriteVariable, eeVerifyPageFullWriteVariable, Program.read, attempt, bind_eq,
    look_bind, ret_bind, op_bind, Device.exec, h.find_write, hloop]
  rfl

/-- The second halfword fails. -/
theorem exec_storeLoop_fail {kind : Kind} (conf : Bytes) (h : Clean m.flash page log)
    (hspace : log.length + 1 < capacity) (hcount : 1 < kind.count) :
    ∃ m', Eeprom.device.exec (storeLoop kind conf kind.count 0)
        [.done, .done, .fail .errorProgram false] m = ⟨some false, m', []⟩ ∧
      Clean m'.flash page (log ++ [(kind.virtAddress 0, halfword conf 0)]) := by
  obtain ⟨m', hm'⟩ : ∃ m' : Mem, m' =
      { m with
        flash := programSlot m.flash page (log.length + 1) (kind.virtAddress 0)
          (halfword conf 0) } := ⟨_, rfl⟩
  have hclean : Clean m'.flash page (log ++ [(kind.virtAddress 0, halfword conf 0)]) := by
    rw [hm']
    exact h.programEntry (by omega) (virtAddress_ne_erased kind (by omega)) (halfword conf 0)
  refine ⟨m', ?_, hclean⟩
  obtain ⟨count, heq⟩ : ∃ count, kind.count = count + 1 + 1 := ⟨kind.count - 2, by omega⟩
  rw [heq, storeLoop, bind_eq, Device.exec_bind, exec_write_done h (by omega), ← hm']
  simp only [storeLoop, bind_eq, ne_eq, not_true_eq_false, if_false]
  rw [Device.exec_bind, exec_write_fail hclean (by rw [List.length_append]; exact hspace)]
  rfl

end Exec

/-- What is read after an interrupted store: the old configuration, the new one
or the defaults. -/
def AllOrNothing (defaults : Defaults) (kind : Kind) (old new read : Bytes) : Prop :=
  (∀ i < kind.size, read i = old i) ∨ (∀ i < kind.size, read i = new i) ∨
    ∀ i < kind.size, read i = defaults kind i

/-- After the failure the first two bytes are new and the others old. -/
theorem read_after_fail {s : System} {old : Bytes} (new : Bytes)
    (hclean : Clean s.mem.flash .page0 (entries .mc old 0 Kind.mc.count)) (defaults : Defaults)
    (buffer : Bytes) {i : Nat} (hi : i < Kind.mc.size) :
    confGeneralRead defaults .mc (flashToRead (Sys.device.exec (confGeneralStore .mc new)
      [.done, .done, .fail .errorProgram false] s)) buffer i = if i < 2 then new i else old i := by
  have hcount := count_mc
  have hspace : (entries .mc old 0 Kind.mc.count).length + 1 < capacity := by
    rw [entries_length, hcount]
    decide
  obtain ⟨m', hexec, hclean'⟩ :=
    exec_storeLoop_fail new hclean hspace (by omega : 1 < Kind.mc.count)
  obtain ⟨hresult, hstate⟩ := exec_confGeneralStore_flash .mc new
    [.done, .done, .fail .errorProgram false] s
  rw [hexec] at hresult hstate
  rw [flashToRead, hresult, hstate]
  have hpresent : Present m'.flash .mc fun i => if i < 2 then new i else old i := by
    intro j hj
    rw [hclean'.readBack (virtAddress_ne_erased .mc hj)]
    by_cases hzero : j = 0
    · subst hzero
      exact latest_concat_self _ _ _
    · rw [latest_concat_of_ne _ fun heq => hzero (virtAddress_inj (by omega) hj heq).2.symm,
        ← List.nil_append (entries .mc old 0 Kind.mc.count),
        latest_entries_of_mem old [] (by omega) (Nat.zero_le j) (by omega), halfword, halfword,
        if_neg (by omega), if_neg (by omega)]
  exact confGeneralRead_of_present defaults hpresent buffer hi

/-- A motor configuration is stored completely, then another one over it, whose
second halfword fails: with no defaults is the result always one of the three. -/
theorem not_allOrNothing_storedBoot :
    ¬∃ defaults, ∀ old new, AllOrNothing defaults .mc old new
      (confGeneralRead defaults .mc (flashToRead (Sys.device.exec (confGeneralStore .mc new)
        [.done, .done, .fail .errorProgram false] (storedBoot old))) fun _ => 0) := by
  rintro ⟨defaults, hall⟩
  obtain ⟨byte, hzero, hbyte⟩ : ∃ byte : Byte, byte ≠ 0 ∧ byte ≠ defaults .mc 0 := by
    by_cases h : defaults .mc 0 = 1
    · exact ⟨2, by decide, by rw [h]; decide⟩
    · exact ⟨1, by decide, Ne.symm h⟩
  have hsize := size_mc
  have hread : ∀ i < Kind.mc.size, _ = if i < 2 then byte else (0 : Byte) := fun i hi =>
    read_after_fail (fun _ => byte) (storedBoot_clean fun _ => 0).2 defaults (fun _ => 0) hi
  have hfirst := hread 0 (by omega)
  rcases hall (fun _ => 0) fun _ => byte with hold | hnew | hdefaults
  · exact hzero (hfirst.symm.trans (hold 0 (by omega)))
  · exact hzero ((hnew 2 (by omega)).symm.trans (hread 2 (by omega)))
  · exact hbyte (hfirst.symm.trans (hdefaults 0 (by omega)))

end Bldc.Conf
