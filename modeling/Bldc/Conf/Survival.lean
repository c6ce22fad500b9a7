import Bldc.Conf.Store

/-!
# Do stored configurations survive

The table of virtual addresses that `conf_general_init` builds covers the first
80 halfwords of each configuration, which is all of the app configuration and
about half of the motor configuration. A page transfer keeps what the table
names, so whether a motor configuration survives depends on where in a store the
page runs full.
-/

namespace Bldc.Conf

open Foundation Foundation.Program Flash Eeprom Sys

/-- Blank slots of the valid page. -/
def freeSlots (flash : Memory) : Nat :=
  match eeFindValidPage flash .readFromValidPage with
  | none => 0
  | some page => ((List.range capacity).map fun i => slot flash page (i + 1)).count blank

theorem freeSlots_of_clean {flash : Memory} {page : Page} {log : List Entry}
    (h : Clean flash page log) : freeSlots flash = capacity - log.length := by
  rw [freeSlots, h.find_read]
  simp only [h.1.slots_eq, List.count_append, List.count_replicate_self,
    List.count_eq_zero_of_not_mem h.1.not_blank, Nat.zero_add]

/-! ## Halfwords of one configuration -/

theorem virtAddress_inj {kind kind' : Kind} {i j : Nat} (hi : i < kind.count)
    (hj : j < kind'.count) (h : kind.virtAddress i = kind'.virtAddress j) :
    kind = kind' ∧ i = j := by
  have hnat := congrArg BitVec.toNat h
  have hi' := Nat.lt_of_lt_of_le hi (count_le kind)
  have hj' := Nat.lt_of_lt_of_le hj (count_le kind')
  simp only [Kind.virtAddress, BitVec.toNat_ofNat] at hnat
  cases kind <;> cases kind' <;>
    simp only [Kind.eepromBase, true_and, reduceCtorEq, false_and] at hnat ⊢ <;> omega

/-- What storing the halfwords from `i` on appends to the log. -/
def entries (kind : Kind) (conf : Bytes) (i count : Nat) : List Entry :=
  (List.range' i count).map fun j => (kind.virtAddress j, halfword conf j)

theorem entries_succ (kind : Kind) (conf : Bytes) (i count : Nat) :
    entries kind conf i (count + 1) =
      entries kind conf i count ++ [(kind.virtAddress (i + count), halfword conf (i + count))] := by
  rw [entries, List.range'_concat, List.map_append, Nat.one_mul]
  rfl

theorem entries_length (kind : Kind) (conf : Bytes) (i count : Nat) :
    (entries kind conf i count).length = count := by
  rw [entries, List.length_map, List.length_range']

theorem latest_entries_of_mem {kind : Kind} (conf : Bytes) (log : List Entry) {i count j : Nat}
    (hcount : i + count ≤ kind.count) (hij : i ≤ j) (hj : j < i + count) :
    latest (kind.virtAddress j) (log ++ entries kind conf i count) = some (halfword conf j) := by
  induction count with
  | zero => omega
  | succ count ih =>
      rw [entries_succ, ← List.append_assoc]
      by_cases heq : j = i + count
      · rw [heq]
        exact latest_concat_self _ _ _
      · rw [latest_concat_of_ne _ fun h => heq (virtAddress_inj (by omega) (by omega) h).2.symm]
        exact ih (by omega) (by omega)

theorem latest_entries_of_ne {kind : Kind} (conf : Bytes) (log : List Entry) {i count : Nat}
    {a : Half} (hne : ∀ j, i ≤ j → j < i + count → kind.virtAddress j ≠ a) :
    latest a (log ++ entries kind conf i count) = latest a log := by
  induction count with
  | zero =>
      rw [entries, List.range'_zero, List.map_nil, List.append_nil]
  | succ count ih =>
      rw [entries_succ, ← List.append_assoc,
        latest_concat_of_ne _ (hne (i + count) (by omega) (by omega))]
      exact ih fun j hj hj' => hne j hj (by omega)

/-! ## One store without disturbance -/

section Store

variable {kind : Kind} {conf : Bytes} {mem : Mem} {page : Page} {log : List Entry}

/-- The loop in two parts. -/
theorem run_storeLoop_add (kind : Kind) (conf : Bytes) (n : Nat) :
    ∀ (m i : Nat) (mem : Mem),
      Eeprom.device.run (storeLoop kind conf (n + m) i) mem =
        if (Eeprom.device.run (storeLoop kind conf n i) mem).1 = true then
          Eeprom.device.run (storeLoop kind conf m (i + n))
            (Eeprom.device.run (storeLoop kind conf n i) mem).2
        else (false, (Eeprom.device.run (storeLoop kind conf n i) mem).2) := by
  induction n with
  | zero =>
      intro m i mem
      rw [Nat.zero_add]
      rfl
  | succ n ih =>
      intro m i mem
      rw [Nat.succ_add]
      simp only [storeLoop, bind_eq, Device.run_bind]
      split
      · rfl
      · rw [ih, Nat.succ_add_eq_add_succ]

theorem run_storeLoop_one (kind : Kind) (conf : Bytes) (i : Nat) (mem : Mem)
    (h : (Eeprom.device.run (eeWriteVariable (kind.virtAddress i) (halfword conf i)) mem).1 =
      .complete) :
    Eeprom.device.run (storeLoop kind conf 1 i) mem =
      (true,
        (Eeprom.device.run (eeWriteVariable (kind.virtAddress i) (halfword conf i)) mem).2) := by
  simp only [storeLoop, bind_eq, Device.run_bind, h]
  rfl

theorem filter_length_le (virtAddress : Half) :
    (virtAddVarTab.filter (· ≠ virtAddress)).length ≤ 160 := by
  rw [← virtAddVarTab_length]
  exact List.length_filter_le _ _

/-- One write: it is appended, or it takes the table along to the other page. -/
theorem run_write {virtAddress : Half} (data : Half) (hmem : mem.virtAddVarTab = virtAddVarTab)
    (hvirt : virtAddress ≠ erased) (hclean : Clean mem.flash page log) :
    (Eeprom.device.run (eeWriteVariable virtAddress data) mem).1 = .complete ∧
      At virtAddVarTab (Written virtAddVarTab page log virtAddress data)
        (Eeprom.device.run (eeWriteVariable virtAddress data) mem).2 := by
  rcases (meets_writeVariable honest_false (fun a => virtAddVarTab_ne_ones) hvirt hmem
    hclean).undisturbed with ⟨hstatus, hwritten⟩ | ⟨-, -, -, hlarge⟩
  · exact ⟨hstatus, hwritten⟩
  · have hfilter := filter_length_le virtAddress
    have hcap : capacity = 4095 := rfl
    omega

/-- As long as there is room the halfwords are appended. -/
theorem run_storeLoop_append (kind : Kind) (conf : Bytes) (count : Nat) :
    ∀ (i : Nat) {mem : Mem} {log : List Entry}, mem.virtAddVarTab = virtAddVarTab →
      Clean mem.flash page log → i + count ≤ kind.count → log.length + count ≤ capacity →
      (Eeprom.device.run (storeLoop kind conf count i) mem).1 = true ∧
        At virtAddVarTab (fun flash => Clean flash page (log ++ entries kind conf i count))
          (Eeprom.device.run (storeLoop kind conf count i) mem).2 := by
  induction count with
  | zero =>
      intro i mem log hmem hclean _ _
      rw [entries, List.range'_zero, List.map_nil, List.append_nil]
      exact ⟨rfl, hmem, hclean⟩
  | succ count ih =>
      intro i mem log hmem hclean hcount hspace
      obtain ⟨hfirst, hmem', hclean'⟩ := ih i hmem hclean (by omega) (by omega)
      obtain ⟨hstatus, hmem'', hwritten⟩ := run_write (halfword conf (i + count)) hmem'
        (virtAddress_ne_erased kind (by omega : i + count < kind.count)) hclean'
      rw [run_storeLoop_add, if_pos hfirst, run_storeLoop_one _ _ _ _ hstatus]
      refine ⟨rfl, hmem'', ?_⟩
      rw [entries_succ, ← List.append_assoc]
      refine (hwritten.resolve_right fun h => ?_).2
      have hlength := h.1
      rw [List.length_append, entries_length] at hlength
      omega

/-- The log after a store in which the page runs full before halfword `t`: the
halfwords from `t` on are new, of everything else the table is kept. -/
structure Swapped (kind : Kind) (conf : Bytes) (t : Nat) (log log' : List Entry) : Prop where
  length_le : log'.length ≤ 161 + kind.count
  stored : ∀ j, t ≤ j → j < kind.count →
    latest (kind.virtAddress j) log' = some (halfword conf j)
  kept : ∀ a ≠ erased, (∀ j, t ≤ j → j < kind.count → kind.virtAddress j ≠ a) →
    latest a log' = if a ∈ virtAddVarTab then latest a (log ++ entries kind conf 0 t) else none

theorem run_storeLoop_swap (kind : Kind) (conf : Bytes) (hmem : mem.virtAddVarTab = virtAddVarTab)
    (hclean : Clean mem.flash page log) (hfull : capacity < log.length + kind.count) :
    (Eeprom.device.run (storeLoop kind conf kind.count 0) mem).1 = true ∧
      At virtAddVarTab (fun flash => ∃ log', Clean flash page.other log' ∧
        Swapped kind conf (capacity - log.length) log log')
        (Eeprom.device.run (storeLoop kind conf kind.count 0) mem).2 := by
  have hlength := hclean.1.length_le
  have hcount := count_le kind
  have hcap : capacity = 4095 := rfl
  obtain ⟨t, ht⟩ : ∃ t, t = capacity - log.length := ⟨_, rfl⟩
  -- the page runs full
  obtain ⟨hfirst, hmem₁, hclean₁⟩ := run_storeLoop_append kind conf t 0 hmem hclean
    (by omega) (by omega)
  have hfull₁ : (log ++ entries kind conf 0 t).length = capacity := by
    rw [List.length_append, entries_length]
    omega
  -- halfword `t` finds it full and causes the transfer
  obtain ⟨hstatus, hmem₂, hwritten⟩ := run_write (halfword conf t) hmem₁
    (virtAddress_ne_erased kind (by omega : t < kind.count)) hclean₁
  obtain ⟨-, log₂, hclean₂, hlength₂, hlatest₂⟩ := hwritten.resolve_left fun h => by omega
  have hfilter := filter_length_le (kind.virtAddress t)
  -- the rest goes to the new page
  obtain ⟨hlast, hmem₃, hclean₃⟩ := run_storeLoop_append kind conf
    (kind.count - t - 1) (t + 1) hmem₂ hclean₂ (by omega) (by omega)
  have hrun := run_storeLoop_add kind conf t (1 + (kind.count - t - 1)) 0 mem
  rw [if_pos hfirst, Nat.zero_add, run_storeLoop_add kind conf 1,
    run_storeLoop_one _ _ _ _ hstatus, if_pos rfl,
    show t + (1 + (kind.count - t - 1)) = kind.count by omega] at hrun
  rw [hrun, ← ht]
  refine ⟨hlast, hmem₃, _, hclean₃, ?_, fun j htj hj => ?_, fun a ha hne => ?_⟩
  · rw [List.length_append, entries_length]
    omega
  · by_cases hjt : j = t
    · rw [latest_entries_of_ne, hjt, hlatest₂ _ (virtAddress_ne_erased kind (by omega)),
        transferred, if_pos rfl]
      intro k hk hk' h
      have hinj := (virtAddress_inj (by omega) (by omega) h).2
      omega
    · exact latest_entries_of_mem conf log₂ (by omega) (by omega) (by omega)
  · rw [latest_entries_of_ne _ _ fun j hj hj' => hne j (by omega) (by omega), hlatest₂ a ha,
      transferred, if_neg (fun h => hne t (Nat.le_refl t) (by omega) h.symm)]

/-- The log gives every halfword of `conf`. -/
def Keeps (log : List Entry) (kind : Kind) (conf : Bytes) : Prop :=
  ∀ j < kind.count, latest (kind.virtAddress j) log = some (halfword conf j)

theorem Swapped.keeps {t : Nat} {log' : List Entry} (h : Swapped kind conf t log log')
    (ht : t ≤ 80) (htc : t ≤ kind.count) : Keeps log' kind conf := by
  intro j hj
  by_cases htj : t ≤ j
  · exact h.stored j htj hj
  · have hmem := (mem_virtAddVarTab_iff kind hj).2 (by omega)
    rw [h.kept _ (virtAddress_ne_erased kind hj), if_pos hmem]
    · exact latest_entries_of_mem conf log (by omega) (Nat.zero_le j) (by omega)
    · intro k hk hk' heq
      have hinj := (virtAddress_inj hk' hj heq).2
      omega

theorem Swapped.keeps_other {t : Nat} {log' : List Entry} {other : Kind} {conf' : Bytes}
    (h : Swapped kind conf t log log') (hne : kind ≠ other) (hcount : other.count ≤ 80)
    (htc : t ≤ kind.count) (hold : Keeps log other conf') : Keeps log' other conf' := by
  intro j hj
  have hmem := (mem_virtAddVarTab_iff other hj).2 (by omega)
  have hapart : ∀ k < kind.count, kind.virtAddress k ≠ other.virtAddress j :=
    fun k hk heq => hne (virtAddress_inj hk hj heq).1
  rw [h.kept _ (virtAddress_ne_erased other hj) fun k _ hk => hapart k hk, if_pos hmem,
    latest_entries_of_ne _ _ fun k _ hk => hapart k (by omega)]
  exact hold j hj

theorem run_storeLoop_keeps (kind : Kind) (conf : Bytes) (hmem : mem.virtAddVarTab = virtAddVarTab)
    (hclean : Clean mem.flash page log) :
    (Eeprom.device.run (storeLoop kind conf kind.count 0) mem).1 = true ∧
      At virtAddVarTab (fun flash => ∃ page' log', Clean flash page' log' ∧
        (kind.count ≤ freeSlots mem.flash ∨ freeSlots mem.flash ≤ 80 → Keeps log' kind conf) ∧
        ∀ other conf', kind ≠ other → (kind.count ≤ freeSlots mem.flash ∨ other.count ≤ 80) →
          Keeps log other conf' → Keeps log' other conf')
        (Eeprom.device.run (storeLoop kind conf kind.count 0) mem).2 := by
  have hlength := hclean.1.length_le
  rw [freeSlots_of_clean hclean]
  by_cases hroom : log.length + kind.count ≤ capacity
  · obtain ⟨htrue, hmem', hclean'⟩ :=
      run_storeLoop_append kind conf kind.count 0 hmem hclean (by omega) hroom
    refine ⟨htrue, hmem', page, _, hclean', fun _ j hj => ?_, fun other conf' hne _ hold j hj => ?_⟩
    · exact latest_entries_of_mem conf log (by omega) (Nat.zero_le j) (by omega)
    · rw [latest_entries_of_ne _ _ fun k _ hk heq =>
        hne (virtAddress_inj (by omega : k < kind.count) hj heq).1]
      exact hold j hj
  · obtain ⟨htrue, hmem', log', hclean', hswap⟩ :=
      run_storeLoop_swap kind conf hmem hclean (Nat.lt_of_not_le hroom)
    refine ⟨htrue, hmem', page.other, log', hclean', fun hfits => ?_,
      fun other conf' hne hfits => ?_⟩
    · exact hswap.keeps (by omega) (by omega)
    · exact hswap.keeps_other hne (by omega) (by omega)

/-- A page that runs full at the wrong place costs halfword 80 of the motor
configuration. -/
theorem run_storeLoop_loses (kind : Kind) (conf : Bytes) (hmem : mem.virtAddVarTab = virtAddVarTab)
    (hclean : Clean mem.flash page log) (hfull : freeSlots mem.flash < kind.count)
    (hplace : kind = .mc → 80 < freeSlots mem.flash) :
    readBack (Eeprom.device.run (storeLoop kind conf kind.count 0) mem).2.flash
      (Kind.mc.virtAddress 80) = none := by
  have hlength := hclean.1.length_le
  have h80 : 80 < Kind.mc.count := by
    rw [count_mc]
    decide
  rw [freeSlots_of_clean hclean] at hfull hplace
  obtain ⟨-, -, log', hclean', hswap⟩ := run_storeLoop_swap kind conf hmem hclean (by omega)
  rw [hclean'.readBack (virtAddress_ne_erased .mc h80),
    hswap.kept _ (virtAddress_ne_erased .mc h80), if_neg]
  · rw [mem_virtAddVarTab_iff .mc h80]
    omega
  · intro j hj hj' heq
    obtain ⟨rfl, rfl⟩ := virtAddress_inj hj' h80 heq
    have hearly := hplace rfl
    omega

end Store

/-! ## Runs of stores -/

/-- One store after the other, with their results. -/
def storeAll : List (Kind × Bytes) → SysProgram (List Bool)
  | [] => pure []
  | (kind, conf) :: rest => do
      let isOk ← confGeneralStore kind conf
      let results ← storeAll rest
      pure (isOk :: results)

theorem run_confGeneralStore (kind : Kind) (conf : Bytes) (s : System) :
    Sys.device.run (confGeneralStore kind conf) s =
      ((Eeprom.device.run (storeLoop kind conf kind.count 0) s.mem).1,
        left (putMem (Eeprom.device.run (storeLoop kind conf kind.count 0) s.mem).2
          (entered s))) := by
  have hexec := exec_confGeneralStore kind conf [] s
  simp only [Device.exec_nil] at hexec
  exact Prod.ext (Option.some.inj (congrArg Outcome.result hexec)) (congrArg Outcome.state hexec)

theorem mem_left_putMem (mem : Mem) (s : System) : (left (putMem mem s)).mem = mem := by
  unfold left utilsSysUnlockCnt wwdgClockCmd
  split <;> rfl

theorem run_storeAll_concat (stores : List (Kind × Bytes)) (kind : Kind) (conf : Bytes) :
    ∀ s, Sys.device.run (storeAll (stores ++ [(kind, conf)])) s =
      ((Sys.device.run (storeAll stores) s).1 ++
          [(Sys.device.run (confGeneralStore kind conf) (Sys.device.run (storeAll stores) s).2).1],
        (Sys.device.run (confGeneralStore kind conf)
          (Sys.device.run (storeAll stores) s).2).2) := by
  induction stores with
  | nil =>
      intro s
      simp only [List.nil_append, storeAll, bind_eq, pure_eq, Device.run_bind, Device.run_ret]
  | cons store rest ih =>
      intro s
      simp only [List.cons_append, storeAll, bind_eq, pure_eq, Device.run_bind, Device.run_ret, ih]

/-- The system after `conf_general_init` on erased or well-formed pages. -/
def Initialised (s : System) : Prop :=
  ∃ mem : Mem, ((∀ page, Blank mem.flash page) ∨ ∃ page log, Clean mem.flash page log) ∧
    s.mem = (Eeprom.device.run confGeneralInit mem).2

theorem clean_init_blank (mem : Mem) (hblank : ∀ page, Blank mem.flash page) :
    At virtAddVarTab (fun flash => Clean flash .page0 [])
      (Eeprom.device.run confGeneralInit mem).2 := by
  have hinit : Meets _ eeInit _ (fun _ => False) _ { mem with virtAddVarTab := virtAddVarTab } :=
    meets_init_blank honest_false rfl hblank
  rcases hinit.undisturbed with ⟨-, hclean⟩ | ⟨-, hfalse⟩
  · exact hclean
  · exact hfalse.elim

theorem clean_init_clean {mem : Mem} {page : Page} {log : List Entry}
    (hclean : Clean mem.flash page log) :
    At virtAddVarTab (fun flash => Clean flash page log)
      (Eeprom.device.run confGeneralInit mem).2 := by
  have hinit : Meets _ eeInit _ (fun _ => False) _ { mem with virtAddVarTab := virtAddVarTab } :=
    meets_init_clean honest_false rfl hclean
  rcases hinit.undisturbed with ⟨-, hclean'⟩ | ⟨-, hfalse⟩
  · exact hclean'
  · exact hfalse.elim

theorem Initialised.clean {s : System} (h : Initialised s) :
    s.mem.virtAddVarTab = virtAddVarTab ∧ ∃ page log, Clean s.mem.flash page log := by
  obtain ⟨mem, hflash, hs⟩ := h
  rw [hs]
  rcases hflash with hblank | ⟨page, log, hclean⟩
  · obtain ⟨hmem, hclean⟩ := clean_init_blank mem hblank
    exact ⟨hmem, .page0, [], hclean⟩
  · obtain ⟨hmem, hclean'⟩ := clean_init_clean hclean
    exact ⟨hmem, page, log, hclean'⟩

/-- Every configuration is read back as it was stored last. -/
def Survives (defaults : Defaults) (start : System) (stores : List (Kind × Bytes)) : Prop :=
  ∀ kind conf, latest kind stores = some conf → ∀ buffer, ∀ i < kind.size,
    confGeneralRead defaults kind (Sys.device.run (storeAll stores) start).2.mem.flash buffer i =
      conf i

/-- The page does not run full at a place that costs a configuration. A motor
configuration must fit, or the page must run full among the halfwords that the
table covers; an app configuration must fit, or there must be no motor
configuration to lose. -/
def Fits (flash : Memory) (before : List (Kind × Bytes)) : Kind → Prop
  | .mc => Kind.mc.count ≤ freeSlots flash ∨ freeSlots flash ≤ 80
  | .app => Kind.app.count ≤ freeSlots flash ∨ latest .mc before = none

/-- What holds after a run of stores that fit. -/
def Intact (stores : List (Kind × Bytes)) (mem : Mem) : Prop :=
  At virtAddVarTab (fun flash => ∃ page log, Clean flash page log ∧
    ∀ kind conf, latest kind stores = some conf → Keeps log kind conf) mem

theorem Intact.store {stores : List (Kind × Bytes)} {mem : Mem} (h : Intact stores mem)
    {kind : Kind} (conf : Bytes) (hfits : Fits mem.flash stores kind) :
    (Eeprom.device.run (storeLoop kind conf kind.count 0) mem).1 = true ∧
      Intact (stores ++ [(kind, conf)])
        (Eeprom.device.run (storeLoop kind conf kind.count 0) mem).2 := by
  obtain ⟨hmem, page, log, hclean, hkeeps⟩ := h
  obtain ⟨htrue, hmem', page', log', hclean', hnew, hold⟩ :=
    run_storeLoop_keeps kind conf hmem hclean
  refine ⟨htrue, hmem', page', log', hclean', fun other conf' hlatest => ?_⟩
  by_cases hsame : kind = other
  · subst hsame
    rw [latest_concat_self] at hlatest
    cases hlatest
    refine hnew ?_
    cases kind
    · exact hfits
    · rw [count_app]
      omega
  · rw [latest_concat_of_ne _ hsame] at hlatest
    refine hold other conf' hsame ?_ (hkeeps other conf' hlatest)
    cases kind <;> cases other
    · exact absurd rfl hsame
    · exact Or.inr (Nat.le_of_eq count_app)
    · refine Or.inl (hfits.resolve_right fun hnone => ?_)
      rw [hnone] at hlatest
      cases hlatest
    · exact absurd rfl hsame

theorem intact_storeAll {start : System} (hstart : Initialised start)
    (stores : List (Kind × Bytes)) :
    (∀ before kind conf, before ++ [(kind, conf)] <+: stores →
      Fits (Sys.device.run (storeAll before) start).2.mem.flash before kind) →
    (Sys.device.run (storeAll stores) start).1 = List.replicate stores.length true ∧
      Intact stores (Sys.device.run (storeAll stores) start).2.mem := by
  induction stores using List.reverseRecOn with
  | nil =>
      intro _
      obtain ⟨hmem, page, log, hclean⟩ := hstart.clean
      exact ⟨rfl, hmem, page, log, hclean, fun kind conf h => by cases h⟩
  | append_singleton stores store ih =>
      obtain ⟨kind, conf⟩ := store
      intro hfits
      obtain ⟨hresults, hintact⟩ := ih fun before kind conf hinit =>
        hfits before kind conf (hinit.trans (List.prefix_append _ _))
      obtain ⟨htrue, hintact'⟩ := hintact.store conf (hfits stores kind conf (List.prefix_refl _))
      rw [run_storeAll_concat, run_confGeneralStore]
      refine ⟨?_, ?_⟩
      · rw [hresults, htrue, List.length_append, List.replicate_add]
        rfl
      · rw [mem_left_putMem]
        exact hintact'

/-- In every run of stores whose steps all fit, every store returns true and the
configurations read back are the last ones stored. -/
theorem survives_of_fits (defaults : Defaults) (start : System) (stores : List (Kind × Bytes))
    (hstart : Initialised start)
    (hfits : ∀ before kind conf, before ++ [(kind, conf)] <+: stores →
      Fits (Sys.device.run (storeAll before) start).2.mem.flash before kind) :
    (Sys.device.run (storeAll stores) start).1 = List.replicate stores.length true ∧
      Survives defaults start stores := by
  obtain ⟨hresults, -, page, log, hclean, hkeeps⟩ := intact_storeAll hstart stores hfits
  refine ⟨hresults, fun kind conf hlatest buffer i hi => ?_⟩
  refine confGeneralRead_of_present defaults (fun j hj => ?_) buffer hi
  rw [hclean.readBack (virtAddress_ne_erased kind hj)]
  exact hkeeps kind conf hlatest j hj

/-- Up to 26 motor configurations fit on an empty page. -/
theorem run_storeAll_fill {start : System}
    (hstart : At virtAddVarTab (fun flash => Clean flash .page0 []) start.mem) (conf : Bytes)
    {n : Nat} (hn : n ≤ 26) :
    (Sys.device.run (storeAll (List.replicate n (.mc, conf))) start).1 = List.replicate n true ∧
      At virtAddVarTab (fun flash => ∃ log, Clean flash .page0 log ∧ log.length = 154 * n)
        (Sys.device.run (storeAll (List.replicate n (.mc, conf))) start).2.mem := by
  induction n with
  | zero => exact ⟨rfl, hstart.1, [], hstart.2, rfl⟩
  | succ n ih =>
      obtain ⟨hresults, hmem, log, hclean, hlength⟩ := ih (by omega)
      have hcap : capacity = 4095 := rfl
      have hcount := count_mc
      obtain ⟨htrue, hmem', hclean'⟩ := run_storeLoop_append .mc conf Kind.mc.count 0 hmem hclean
        (by omega) (by omega)
      rw [List.replicate_succ', run_storeAll_concat, run_confGeneralStore]
      refine ⟨?_, ?_⟩
      · rw [hresults, htrue, List.replicate_succ']
      · rw [mem_left_putMem]
        refine ⟨hmem', _, hclean', ?_⟩
        rw [List.length_append, entries_length]
        omega

/-- Then 91 slots are left, and the next motor configuration is lost. -/
theorem run_storeAll_lost {start : System}
    (hstart : At virtAddVarTab (fun flash => Clean flash .page0 []) start.mem) (conf : Bytes) :
    (Sys.device.run (storeAll (List.replicate 27 (.mc, conf))) start).1 = List.replicate 27 true ∧
      readBack (Sys.device.run (storeAll (List.replicate 27 (.mc, conf))) start).2.mem.flash
        (Kind.mc.virtAddress 80) = none := by
  obtain ⟨hresults, hmem, log, hclean, hlength⟩ := run_storeAll_fill hstart conf (Nat.le_refl 26)
  have hcount := count_mc
  have hcap : capacity = 4095 := rfl
  have hfree := freeSlots_of_clean hclean
  rw [List.replicate_succ', run_storeAll_concat, run_confGeneralStore]
  refine ⟨?_, ?_⟩
  · rw [hresults, (run_storeLoop_keeps .mc conf hmem hclean).1]
    exact List.replicate_succ'.symm
  · rw [mem_left_putMem]
    exact run_storeLoop_loses .mc conf hmem hclean (by omega) fun _ => by omega

/-- The first boot of a new controller. -/
def firstBoot : System := idle (Eeprom.device.run confGeneralInit erasedMem).2

theorem firstBoot_mem : firstBoot.mem = (Eeprom.device.run confGeneralInit erasedMem).2 := by
  rw [firstBoot, idle_mem]

theorem firstBoot_clean :
    At virtAddVarTab (fun flash => Clean flash .page0 []) firstBoot.mem := by
  rw [firstBoot_mem]
  exact clean_init_blank erasedMem blank_ones

theorem firstBoot_initialised : Initialised firstBoot :=
  ⟨erasedMem, Or.inl blank_ones, firstBoot_mem⟩

theorem survives_of_fits_firstBoot :
    Survives (fun _ _ => 0) firstBoot [(.mc, fun _ => 1)] := by
  refine (survives_of_fits _ firstBoot _ firstBoot_initialised ?_).2
  intro before kind conf hinit
  have hlength := hinit.length_le
  rw [List.length_append, List.length_singleton, List.length_singleton] at hlength
  have hnil : before = [] := List.eq_nil_of_length_eq_zero (by omega)
  subst hnil
  obtain ⟨rfl, -⟩ : kind = .mc ∧ conf = fun _ => 1 := by
    rw [List.nil_append, List.cons_prefix_cons, Prod.mk.injEq] at hinit
    exact hinit.1
  refine Or.inl ?_
  rw [storeAll, pure_eq, Device.run_ret, freeSlots_of_clean firstBoot_clean.2, count_mc]
  decide

/-- Storing one motor configuration 27 times on a new controller returns true
every time, and then the defaults are read, whatever they are. -/
theorem not_survives_firstBoot :
    ¬∃ defaults, ∀ stores,
      (Sys.device.run (storeAll stores) firstBoot).1 = List.replicate stores.length true →
      Survives defaults firstBoot stores := by
  rintro ⟨defaults, hsurvives⟩
  obtain ⟨byte, hbyte⟩ : ∃ byte : Byte, byte ≠ defaults .mc 0 := by
    by_cases h : defaults .mc 0 = 0
    · exact ⟨1, by rw [h]; decide⟩
    · exact ⟨0, Ne.symm h⟩
  have hsize : 0 < Kind.mc.size := by
    rw [size_mc]
    decide
  have h80 : 80 < Kind.mc.count := by
    rw [count_mc]
    decide
  obtain ⟨hresults, hlost⟩ := run_storeAll_lost firstBoot_clean fun _ => byte
  have hread := hsurvives (List.replicate 27 (.mc, fun _ => byte))
    (by rw [hresults, List.length_replicate]) .mc (fun _ => byte)
    (by rw [List.replicate_succ', latest_concat_self]) (fun _ => 0) 0 hsize
  rw [confGeneralRead_of_missing defaults h80 hlost _ hsize] at hread
  exact hbyte hread.symm

end Bldc.Conf
