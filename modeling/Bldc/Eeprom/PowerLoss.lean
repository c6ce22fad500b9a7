import Bldc.Conf.Layout
import Bldc.Eeprom.Recovery

/-!
# Runs with power losses

A run is a sequence of `EE_WriteVariable` calls and of boots, each of which
starts with `EE_Init`; power may be lost before any flash operation of any of
them. The run keeps a ledger of what has been written completely and of the
write that was interrupted last.
-/

namespace Bldc.Eeprom

open Foundation Foundation.Program Flash Conf

/-- A call, and after how many of its flash operations power is lost. -/
inductive Event where
  | write (virtAddress data : Half) (cutAfter : Option Nat)
  | boot (cutAfter : Option Nat)
  deriving DecidableEq, Repr

/-- The state of a run. `running` holds once `EE_Init` has completed since the
last power loss; `values` is the last completely written value of every
variable. -/
structure Ledger where
  mem : Mem
  running : Bool
  values : Values
  interrupted : Option (Half × Half)

def powerAnswers : Option Nat → List (Answer Status)
  | none => []
  | some count => List.replicate count .done ++ [.cut]

/-- The value `EE_ReadVariable` returns with status 0. -/
def readBack (flash : Memory) (virtAddress : Half) : Option Half :=
  match eeReadVariable flash virtAddress 0 with
  | (.found, value) => some value
  | _ => none

/-- At a completed boot the interrupted write is settled one way or the other. -/
def settle (values : Values) (interrupted : Option (Half × Half)) (flash : Memory) : Values :=
  match interrupted with
  | some (virtAddress, _) =>
      Function.update values virtAddress (readBack flash virtAddress)
  | none => values

def Ledger.step (s : Ledger) : Event → Ledger
  | .write virtAddress data cutAfter =>
      if s.running then
        match device.exec (eeWriteVariable virtAddress data) (powerAnswers cutAfter) s.mem with
        | ⟨some status, mem, _⟩ =>
            { s with
              mem := mem
              values := if status = .complete then Function.update s.values virtAddress (some data)
                else s.values }
        | ⟨none, mem, _⟩ =>
            { s with mem := mem, running := false, interrupted := some (virtAddress, data) }
      else s
  | .boot cutAfter =>
      match device.exec eeInit (powerAnswers cutAfter) { s.mem with dataVar := 0 } with
      | ⟨some _, mem, _⟩ =>
          { mem := mem
            running := true
            values := settle s.values s.interrupted mem.flash
            interrupted := none }
      | ⟨none, mem, _⟩ => { s with mem := mem, running := false }

def Ledger.run (s : Ledger) (events : List Event) : Ledger := events.foldl Ledger.step s

/-- What a completed `EE_Init` leading from `s` to `s'` owes to the variables of
the table. -/
def Kept (tab : List Half) (s s' : Ledger) : Prop :=
  ∀ a ∈ tab, readBack s'.mem.flash a = s.values a ∨
    ∃ data, s.interrupted = some (a, data) ∧ readBack s'.mem.flash a = some data

/-- No boot that completes loses a variable. -/
def NoLoss (tab : List Half) (start : Ledger) (events : List Event) : Prop :=
  ∀ before cutAfter, before ++ [.boot cutAfter] <+: events →
    ((start.run before).step (.boot cutAfter)).running = true →
    Kept tab (start.run before) ((start.run before).step (.boot cutAfter))

/-- A run starts after a completed boot, with one page valid and the other
erased. -/
structure Started (tab : List Half) (s : Ledger) : Prop where
  table : s.mem.virtAddVarTab = tab
  wellFormed : ∃ page log, Clean s.mem.flash page log
  running : s.running = true
  values : ∀ a ∈ tab, s.values a = readBack s.mem.flash a
  interrupted : s.interrupted = none

/-- Writes go to variables of the table. -/
def Event.OnTable (tab : List Half) : Event → Prop
  | .write virtAddress _ _ => virtAddress ∈ tab
  | .boot _ => True

/-- Power is never lost while both headers read `VALID_PAGE`. -/
def SafeCuts (start : Ledger) (events : List Event) : Prop :=
  ∀ before, before <+: events → (start.run before).running = false →
    ¬BothValid (start.run before).mem.flash

theorem run_concat (s : Ledger) (events : List Event) (event : Event) :
    s.run (events ++ [event]) = (s.run events).step event := List.foldl_concat _ _ _ _

theorem run_append_pair (s : Ledger) (events : List Event) (event event' : Event) :
    s.run (events ++ [event, event']) = ((s.run events).step event).step event' :=
  List.foldl_append

/-! ## The invariant -/

theorem Clean.readBack {flash : Memory} {page : Page} {log : List Entry} {a : Half}
    (h : Clean flash page log) (ha : a ≠ erased) : readBack flash a = latest a log := by
  unfold Eeprom.readBack
  rw [h.read ha]
  cases latest a log <;> rfl

theorem Receiving.readBack {flash : Memory} {page : Page} {src dst : List Entry} {a : Half}
    (h : Receiving flash page src dst) (ha : a ≠ erased) : readBack flash a = latest a src := by
  unfold Eeprom.readBack
  rw [h.read ha]
  cases latest a src <;> rfl

/-- The values of the ledger, or the interrupted value of the interrupted
variable. -/
def Pending (tab : List Half) (s : Ledger) (new : Values) : Prop :=
  ∀ a ∈ tab, new a = s.values a ∨ ∃ data, s.interrupted = some (a, data) ∧ new a = some data

/-- What holds between the events of a run. -/
structure Sound (tab : List Half) (s : Ledger) : Prop where
  table : s.mem.virtAddVarTab = tab
  settled : s.running = true → s.interrupted = none
  flash :
    (∃ old, Stuck tab old s.mem.flash ∧ ∀ a ∈ tab, old a = s.values a) ∨
    (s.running = true ∧ ∃ page log, Clean s.mem.flash page log ∧
      ∀ a ∈ tab, latest a log = s.values a) ∨
    (s.running = false ∧ ∃ old new, Recoverable tab old new s.mem.flash ∧
      (∀ a ∈ tab, old a = s.values a) ∧ Pending tab s new)

/-- Operations either succeed or are never reached. -/
def PowerOnly (answer : Answer Status) : Prop := answer = .done ∨ answer = .cut

theorem honest_powerOnly : Honest PowerOnly := by
  rintro status performed (h | h) <;> cases h

theorem powerOnly_of_mem {cutAfter : Option Nat} {answer : Answer Status}
    (h : answer ∈ powerAnswers cutAfter) : PowerOnly answer := by
  cases cutAfter with
  | none => exact absurd h List.not_mem_nil
  | some count =>
      rcases List.mem_append.1 h with h | h
      · exact Or.inl (List.eq_of_mem_replicate h)
      · exact Or.inr (List.mem_singleton.1 h)

theorem Meets.outcome {program : EeProgram EeStatus} {done full broken : Mem → Prop} {mem : Mem}
    (h : Meets PowerOnly program done full broken mem) (cutAfter : Option Nat) :
    (∃ m rest, device.exec program (powerAnswers cutAfter) mem = ⟨some .complete, m, rest⟩ ∧
      done m) ∨
    (∃ m rest, device.exec program (powerAnswers cutAfter) mem = ⟨some .pageFull, m, rest⟩ ∧
      full m) ∨
    (∃ m rest, device.exec program (powerAnswers cutAfter) mem = ⟨none, m, rest⟩ ∧ broken m) := by
  have hrun := h (powerAnswers cutAfter) fun _ => powerOnly_of_mem
  rcases hexec : device.exec program (powerAnswers cutAfter) mem with ⟨result, m, rest⟩
  rw [hexec] at hrun
  match result, hrun with
  | none, hrun => exact Or.inr (Or.inr ⟨m, rest, rfl, hrun⟩)
  | some (.flash status), Or.inl ⟨hstatus, hdone⟩ =>
      rw [hstatus]
      exact Or.inl ⟨m, rest, rfl, hdone⟩
  | some (.flash status), Or.inr ⟨hstatus, ⟨performed, hfail⟩, _⟩ =>
      rcases hfail with h | h <;> cases h
  | some .pageFull, hrun => exact Or.inr (Or.inl ⟨m, rest, rfl, hrun⟩)

section

variable {tab : List Half} {s : Ledger}

theorem sound_of_started (htab : ∀ a ∈ tab, a ≠ erased) (h : Started tab s) : Sound tab s where
  table := h.table
  settled _ := h.interrupted
  flash := by
    obtain ⟨page, log, hclean⟩ := h.wellFormed
    refine Or.inr (Or.inl ⟨h.running, page, log, hclean, fun a ha => ?_⟩)
    rw [h.values a ha, hclean.readBack (htab a ha)]

section Step

variable {m : Mem} {rest : List (Answer Status)} {virtAddress data : Half}
variable {cutAfter : Option Nat} {status : EeStatus}

theorem step_write_off (h : s.running = false) :
    s.step (.write virtAddress data cutAfter) = s := by
  rw [Ledger.step, if_neg (by rw [h]; decide)]

theorem step_write_complete (h : s.running = true)
    (hexec : device.exec (eeWriteVariable virtAddress data) (powerAnswers cutAfter) s.mem =
      ⟨some .complete, m, rest⟩) :
    s.step (.write virtAddress data cutAfter) =
      { s with mem := m, values := Function.update s.values virtAddress (some data) } := by
  rw [Ledger.step, if_pos h, hexec]
  rfl

theorem step_write_full (h : s.running = true)
    (hexec : device.exec (eeWriteVariable virtAddress data) (powerAnswers cutAfter) s.mem =
      ⟨some .pageFull, m, rest⟩) :
    s.step (.write virtAddress data cutAfter) = { s with mem := m } := by
  rw [Ledger.step, if_pos h, hexec]
  rfl

theorem step_write_cut (h : s.running = true)
    (hexec : device.exec (eeWriteVariable virtAddress data) (powerAnswers cutAfter) s.mem =
      ⟨none, m, rest⟩) :
    s.step (.write virtAddress data cutAfter) =
      { s with mem := m, running := false, interrupted := some (virtAddress, data) } := by
  rw [Ledger.step, if_pos h, hexec]

theorem step_boot_done
    (hexec : device.exec eeInit (powerAnswers cutAfter) { s.mem with dataVar := 0 } =
      ⟨some status, m, rest⟩) :
    s.step (.boot cutAfter) =
      { mem := m
        running := true
        values := settle s.values s.interrupted m.flash
        interrupted := none } := by
  rw [Ledger.step, hexec]

theorem step_boot_cut
    (hexec : device.exec eeInit (powerAnswers cutAfter) { s.mem with dataVar := 0 } =
      ⟨none, m, rest⟩) :
    s.step (.boot cutAfter) = { s with mem := m, running := false } := by
  rw [Ledger.step, hexec]

end Step

/-- A write keeps the ledger sound, wherever power is lost in it. -/
theorem Sound.write (htab : ∀ a ∈ tab, a ≠ erased) (h : Sound tab s) {virtAddress data : Half}
    (hvirt : virtAddress ∈ tab) (cutAfter : Option Nat) :
    Sound tab (s.step (.write virtAddress data cutAfter)) := by
  rcases Bool.eq_false_or_eq_true s.running with hrunning | hoff
  swap
  · rw [step_write_off hoff]
    exact h
  rcases h.flash with ⟨old, hstuck, hvalues⟩ | ⟨-, page, log, hclean, hvalues⟩ | ⟨hoff, -⟩
  · rcases (meets_writeVariable_stuck honest_powerOnly ⟨h.table, hstuck⟩ virtAddress data).outcome
      cutAfter with ⟨m, rest, -, hm⟩ | ⟨m, rest, hexec, hm⟩ | ⟨m, rest, hexec, hm⟩
    · exact hm.elim
    · rw [step_write_full hrunning hexec]
      exact ⟨hm.1, h.settled, Or.inl ⟨old, hm.2, hvalues⟩⟩
    · rw [step_write_cut hrunning hexec]
      exact ⟨hm.1, Bool.noConfusion, Or.inl ⟨old, hm.2, hvalues⟩⟩
  · rcases (meets_writeVariable honest_powerOnly htab (htab virtAddress hvirt) h.table
      hclean).outcome cutAfter with
      ⟨m, rest, hexec, hm⟩ | ⟨m, rest, hexec, hm⟩ | ⟨m, rest, hexec, hm⟩
    · rw [step_write_complete hrunning hexec]
      obtain ⟨page', log', hclean', hlatest⟩ := hm.2.latest_eq
      refine ⟨hm.1, h.settled, Or.inr (Or.inl ⟨hrunning, page', log', hclean', fun a ha => ?_⟩)⟩
      rw [hlatest a ha (htab a ha)]
      change _ = Function.update s.values virtAddress (some data) a
      by_cases hav : a = virtAddress
      · rw [hav, written_self, Function.update_self]
      · rw [written_of_ne hav, Function.update_of_ne hav, hvalues a ha]
    · rw [step_write_full hrunning hexec]
      exact ⟨hm.1.1, h.settled, Or.inl ⟨valuesOf log, hm.1.2, hvalues⟩⟩
    · rw [step_write_cut hrunning hexec]
      refine ⟨hm.1, Bool.noConfusion, Or.inr (Or.inr ⟨rfl, ?_⟩)⟩
      rcases hm.2 with hold | hnew
      · exact ⟨_, _, hold, hvalues, fun a ha => Or.inl (hvalues a ha)⟩
      · refine ⟨_, _, hnew, hvalues, fun a ha => ?_⟩
        by_cases hav : a = virtAddress
        · exact Or.inr ⟨data, by rw [hav], by rw [hav, written_self]⟩
        · exact Or.inl (by rw [written_of_ne hav]; exact hvalues a ha)
  · exact absurd (hrunning.symm.trans hoff) (by decide)

/-- A sound flash that is not stuck is recoverable, also when the power goes
while nothing is being written. -/
theorem Sound.recoverable (h : Sound tab s) :
    (∃ old, Stuck tab old s.mem.flash ∧ ∀ a ∈ tab, old a = s.values a) ∨
    ∃ old new, Recoverable tab old new s.mem.flash ∧ (∀ a ∈ tab, old a = s.values a) ∧
      Pending tab s new := by
  rcases h.flash with hstuck | ⟨-, page, log, hclean, hvalues⟩ | ⟨-, hrecoverable⟩
  · exact Or.inl hstuck
  · exact Or.inr ⟨valuesOf log, valuesOf log, .clean page log hclean (agrees_valuesOf tab log),
      hvalues, fun a ha => Or.inl (hvalues a ha)⟩
  · exact Or.inr hrecoverable

/-- The ledger after a boot that read back `new`. -/
theorem settle_eq {new : Values} {flash : Memory} (hpending : Pending tab s new)
    (hread : ∀ a ∈ tab, readBack flash a = new a) {a : Half} (ha : a ∈ tab) :
    new a = settle s.values s.interrupted flash a := by
  unfold settle
  cases hinterrupted : s.interrupted with
  | none =>
      rcases hpending a ha with h | ⟨data, h, -⟩
      · exact h
      · rw [hinterrupted] at h
        cases h
  | some entry =>
      obtain ⟨b, data⟩ := entry
      change _ = Function.update s.values b (readBack flash b) a
      by_cases hab : a = b
      · rw [hab, Function.update_self, hread b (hab ▸ ha)]
      · rw [Function.update_of_ne hab]
        rcases hpending a ha with h | ⟨data', h, -⟩
        · exact h
        · rw [hinterrupted] at h
          cases h
          exact absurd rfl hab

/-- A boot keeps the ledger sound unless it loses power with both pages valid,
and loses no variable if it completes. -/
theorem Sound.boot (htab : ∀ a ∈ tab, a ≠ erased) (h : Sound tab s) (cutAfter : Option Nat)
    (hsafe : (s.step (.boot cutAfter)).running = false →
      ¬BothValid (s.step (.boot cutAfter)).mem.flash) :
    Sound tab (s.step (.boot cutAfter)) ∧
      ((s.step (.boot cutAfter)).running = true → Kept tab s (s.step (.boot cutAfter))) := by
  -- a completed boot whose flash reads back `new`
  have hdone : ∀ {m : Mem} {new : Values}, m.virtAddVarTab = tab → Pending tab s new →
      (∀ a ∈ tab, readBack m.flash a = new a) →
      ((∀ a ∈ tab, new a = settle s.values s.interrupted m.flash a) ∧
        ∀ a ∈ tab, readBack m.flash a = s.values a ∨
          ∃ data, s.interrupted = some (a, data) ∧ readBack m.flash a = some data) := by
    intro m new hm hpending hread
    refine ⟨fun a ha => settle_eq hpending hread ha, fun a ha => ?_⟩
    rw [hread a ha]
    exact hpending a ha
  rcases h.recoverable with ⟨old, hstuck, hvalues⟩ | ⟨old, new, hrecoverable, hold, hpending⟩
  · have hat : At tab (Stuck tab old) { s.mem with dataVar := 0 } := ⟨h.table, hstuck⟩
    rcases (meets_init_stuck honest_powerOnly htab hat).outcome cutAfter with
      ⟨m, rest, -, hm⟩ | ⟨m, rest, hexec, hm⟩ | ⟨m, rest, -, hm⟩
    · exact hm.elim
    · rw [step_boot_done hexec]
      obtain ⟨page, src, dst, hshape, hsource, -⟩ := hm.2
      have hsettled := hdone hm.1 (fun a ha => Or.inl (hvalues a ha)) fun a ha => by
        rw [hshape.readBack (htab a ha), hsource a (htab a ha)]
      exact ⟨⟨hm.1, fun _ => rfl, Or.inl ⟨old, hm.2, hsettled.1⟩⟩, fun _ => hsettled.2⟩
    · exact hm.elim
  · have hat : At tab (Recoverable tab old new) { s.mem with dataVar := 0 } :=
      ⟨h.table, hrecoverable⟩
    rcases (meets_init_recoverable honest_powerOnly htab hat).outcome cutAfter with
      ⟨m, rest, hexec, hm⟩ | ⟨m, rest, hexec, hm⟩ | ⟨m, rest, hexec, hm⟩
    · rw [step_boot_done hexec]
      obtain ⟨page, log, hclean, hagrees⟩ := hm.2
      have hlatest : ∀ a ∈ tab, latest a log = new a := fun a ha =>
        (hagrees a (htab a ha)).resolve_right fun habs => habs.1 ha
      have hsettled := hdone hm.1 hpending fun a ha => by
        rw [hclean.readBack (htab a ha), hlatest a ha]
      refine ⟨⟨hm.1, fun _ => rfl, Or.inr (Or.inl ⟨rfl, page, log, hclean, fun a ha => ?_⟩)⟩,
        fun _ => hsettled.2⟩
      rw [hlatest a ha, hsettled.1 a ha]
    · rw [step_boot_done hexec]
      obtain ⟨page, src, dst, hshape, hsource, -⟩ := hm.2
      have hsettled := hdone hm.1 (fun a ha => Or.inl (hold a ha)) fun a ha => by
        rw [hshape.readBack (htab a ha), hsource a (htab a ha)]
      exact ⟨⟨hm.1, fun _ => rfl, Or.inl ⟨old, hm.2, hsettled.1⟩⟩, fun _ => hsettled.2⟩
    · rw [step_boot_cut hexec] at hsafe ⊢
      refine ⟨⟨hm.1, Bool.noConfusion, Or.inr (Or.inr ⟨rfl, old, new, ?_, hold, hpending⟩)⟩,
        Bool.noConfusion⟩
      exact hm.2.resolve_right (hsafe rfl)

/-- Soundness along a run. -/
theorem Sound.run (htab : ∀ a ∈ tab, a ≠ erased) (h : Sound tab s) (events : List Event) :
    (∀ event ∈ events, event.OnTable tab) → SafeCuts s events → Sound tab (s.run events) := by
  induction events using List.reverseRecOn with
  | nil => exact fun _ _ => h
  | append_singleton events event ih =>
      intro htable hsafe
      have hbefore := ih (fun e he => htable e (List.mem_append_left _ he))
        fun before hinit => hsafe before (hinit.trans (List.prefix_append _ _))
      have hlast := hsafe (events ++ [event]) (List.prefix_refl _)
      rw [run_concat] at hlast ⊢
      cases event with
      | write virtAddress data cutAfter =>
          exact hbefore.write htab (htable _ (List.mem_append_right _ List.mem_cons_self)) cutAfter
      | boot cutAfter => exact (hbefore.boot htab cutAfter hlast).1

end

theorem Holds.not_bothValid {flash : Memory} {page : Page} {status : Half} {log : List Entry}
    (h : Holds flash page status log) (hstatus : status ≠ validPage) : ¬BothValid flash := by
  rintro ⟨h0, h1⟩
  have heq := h.status_eq
  cases page
  · exact hstatus (heq.symm.trans h0)
  · exact hstatus (heq.symm.trans h1)

/-- A state from which `EE_Init` recovers is not one that it formats. -/
theorem Sound.not_bothValid {tab : List Half} {s : Ledger} (h : Sound tab s) :
    ¬BothValid s.mem.flash := by
  rcases h.recoverable with ⟨_, ⟨page, src, dst, hshape, -⟩, -⟩ | ⟨old, new, hrecoverable, -⟩
  · exact hshape.2.not_bothValid (by decide)
  · cases hrecoverable with
    | clean page log shape agrees => exact shape.2.holds.not_bothValid (by decide)
    | promoted page log shape agrees => exact shape.1.not_bothValid (by decide)
    | receiving page src dst shape copying => exact shape.2.not_bothValid (by decide)

/-- In every run in which power is never lost while both headers read
`VALID_PAGE`, each completed `EE_Init` finds every table variable with its last
completely written value, or with the old or new one if its write was
interrupted. -/
theorem noLoss_of_safeCuts (tab : List Half) (start : Ledger) (events : List Event)
    (htab : ∀ a ∈ tab, a ≠ erased) (hstart : Started tab start)
    (hevents : ∀ event ∈ events, event.OnTable tab) (hsafe : SafeCuts start events) :
    NoLoss tab start events := by
  intro before cutAfter hinit
  have hbefore : before <+: events := (List.prefix_append _ _).trans hinit
  have hsound := (sound_of_started htab hstart).run htab before
    (fun e he => hevents e (hbefore.subset he))
    fun pre hpre => hsafe pre (hpre.trans hbefore)
  have hlast := hsafe _ hinit
  rw [run_concat] at hlast
  exact (hsound.boot htab cutAfter hlast).2

def freshLedger (tab : List Half) : Ledger where
  mem := ⟨formatted, tab, 0⟩
  running := true
  values _ := none
  interrupted := none

theorem started_fresh {tab : List Half} (htab : ∀ a ∈ tab, a ≠ erased) :
    Started tab (freshLedger tab) where
  table := rfl
  wellFormed := ⟨.page0, [], clean_formatted⟩
  running := rfl
  values a ha := (clean_formatted.readBack (htab a ha)).symm
  interrupted := rfl

/-- A write cut after its first operation, then a boot. -/
theorem noLoss_of_safeCuts_fresh :
    NoLoss virtAddVarTab (freshLedger virtAddVarTab) [.write 1000 7 (some 1), .boot none] := by
  have htab : ∀ a ∈ virtAddVarTab, a ≠ erased := fun a => virtAddVarTab_ne_ones
  have hmem : (1000 : Half) ∈ virtAddVarTab := by
    obtain ⟨rest, hhead⟩ := virtAddVarTab_head
    rw [hhead]
    exact List.mem_cons_self
  have hstarted := started_fresh htab
  refine noLoss_of_safeCuts _ _ _ htab hstarted ?_ fun before hinit hoff => ?_
  · intro event hevent
    rcases List.mem_cons.1 hevent with rfl | hevent
    · exact hmem
    · rw [List.mem_singleton.1 hevent]
      trivial
  · have hsound := sound_of_started htab hstarted
    rw [← List.mem_inits] at hinit
    simp only [List.inits, List.map_cons, List.map_nil, List.mem_cons, List.not_mem_nil,
      or_false] at hinit
    rcases hinit with rfl | rfl | rfl
    · exact hsound.not_bothValid
    · exact (hsound.write htab hmem (some 1)).not_bothValid
    · rw [← List.nil_append [_, _], run_append_pair, step_boot_done (Device.exec_nil _ _ _)] at hoff
      cases hoff

/-! ## Both pages valid

A write that is cut right after it marked the receiver, and a boot that is cut
right after it marked the receiver valid.
-/

section Exec

variable {m : Mem} {answers : List (Answer Status)} {virtAddress data : Half}
variable {page : Page} {log src dst : List Entry}

theorem exec_verify_full (h : Clean m.flash page log) (hfull : log.length = capacity) :
    device.exec (eeVerifyPageFullWriteVariable virtAddress data) answers m =
      ⟨some .pageFull, m, answers⟩ := by
  have hloop := h.1.writeLoop (by decide)
  rw [if_neg (by rw [hfull]; exact Nat.lt_irrefl _)] at hloop
  simp only [eeVerifyPageFullWriteVariable, Program.read, bind_eq, look_bind, ret_bind,
    Device.exec, h.find_write, hloop, pure_eq]

theorem exec_verify_done {i : Nat}
    (hfind : eeFindValidPage m.flash .writeInValidPage = some page)
    (hloop : writeLoop m.flash (pageSize / 4) page.base = some (slotAddress page i)) :
    device.exec (eeVerifyPageFullWriteVariable virtAddress data) (.done :: .done :: answers) m =
      ⟨some .complete, { m with flash := programSlot m.flash page i virtAddress data },
        answers⟩ := by
  simp only [eeVerifyPageFullWriteVariable, Program.read, attempt, bind_eq, look_bind, ret_bind,
    op_bind, Device.exec, hfind, hloop, pure_eq, device, ne_eq, not_true_eq_false, if_false,
    perform]

theorem exec_verify_receiving (h : Receiving m.flash page src dst)
    (hspace : dst.length < capacity) :
    device.exec (eeVerifyPageFullWriteVariable virtAddress data) (.done :: .done :: answers) m =
      ⟨some .complete,
        { m with flash := programSlot m.flash page.other (dst.length + 1) virtAddress data },
        answers⟩ := by
  have hloop := h.2.writeLoop (by decide)
  rw [if_pos hspace] at hloop
  exact exec_verify_done h.find_write hloop

theorem exec_transferVariable_missing (h : Receiving m.flash page src dst)
    (hvirt : virtAddress ≠ erased) (hmissing : latest virtAddress src = none) :
    device.exec (transferVariable virtAddress) answers m = ⟨some .complete, m, answers⟩ := by
  simp only [transferVariable, Program.read, Program.modify, bind_eq, look_bind, ret_bind,
    assign_bind, Device.exec, h.read hvirt, hmissing, readResult, pure_eq, ne_eq,
    not_true_eq_false, if_false]

/-- Variables that were never written cost no operation. -/
theorem exec_initLoop_missing (h : Receiving m.flash page src dst) (vars : List Half) :
    ∀ {varIdx : Nat} {x : Int}, x < varIdx →
      (∀ a ∈ vars, a ≠ erased ∧ (a = first dst ∨ latest a src = none)) →
      device.exec (initLoop page.other vars varIdx x) answers m =
        ⟨some .complete, m, answers⟩ := by
  induction vars with
  | nil => exact fun _ _ => rfl
  | cons a rest ih =>
      intro varIdx x hx hvars
      obtain ⟨ha, hskip⟩ := hvars a List.mem_cons_self
      have hrest := fun b hb => hvars b (List.mem_cons_of_mem a hb)
      simp only [initLoop, Program.read, bind_eq, look_bind, ret_bind, Device.exec,
        h.2.half_first]
      by_cases hfirst : first dst = a
      · simp only [if_pos hfirst, ne_eq, not_true_eq_false, if_false]
        exact ih (by omega) hrest
      · rw [if_neg hfirst, if_pos (by omega : (varIdx : Int) ≠ x), Device.exec_bind,
          exec_transferVariable_missing h ha (hskip.resolve_left (Ne.symm hfirst))]
        exact ih (by omega) hrest

/-- Cut after the receiver was marked. -/
theorem exec_write_cut (h : Clean m.flash page log) (hfull : log.length = capacity) :
    device.exec (eeWriteVariable virtAddress data) (powerAnswers (some 1)) m =
      ⟨none, { m with flash := m.flash.programHalfWord page.other.base receiveData }, []⟩ := by
  have hmark := h.markReceiving
  have hloop := hmark.2.writeLoop (by decide)
  rw [eeWriteVariable, bind_eq, Device.exec_bind, exec_verify_full h hfull]
  simp only [eePageTransfer, eeVerifyPageFullWriteVariable, Program.read, attempt, bind_eq,
    look_bind, ret_bind, op_bind, Device.exec, h.find_read, powerAnswers, List.replicate,
    List.cons_append, List.nil_append, if_true, ne_eq, not_true_eq_false, if_false, device,
    perform, hmark.find_write]
  rw [if_pos (by decide)] at hloop
  simp only [hloop, op_bind, Device.exec]

theorem exec_transferVariable_found (h : Receiving m.flash page src dst)
    (hspace : dst.length < capacity) (hvirt : virtAddress ≠ erased)
    (hvalue : latest virtAddress src = some data) :
    device.exec (transferVariable virtAddress) (.done :: .done :: answers) m =
      ⟨some .complete,
        { m with
          flash := programSlot m.flash page.other (dst.length + 1) virtAddress data
          dataVar := data }, answers⟩ := by
  have hread : Receiving { m with dataVar := data }.flash page src dst := h
  have hwrite : device.exec (eeVerifyPageFullWriteVariable virtAddress data)
      (.done :: .done :: answers) { m with dataVar := data } = _ :=
    exec_verify_receiving hread hspace
  simp only [transferVariable, Program.read, Program.modify, bind_eq, look_bind, ret_bind,
    assign_bind, Device.exec, h.read hvirt, hvalue, readResult, ne_eq]
  exact hwrite

/-- Cut after the one variable was copied and the receiver was marked valid. -/
theorem exec_init_cut {rest : List Half} (h : Receiving m.flash page src [])
    (htab : m.virtAddVarTab = virtAddress :: rest) (hvirt : virtAddress ≠ erased)
    (hvalue : latest virtAddress src = some data)
    (hrest : ∀ a ∈ rest, a ≠ erased ∧ (a = virtAddress ∨ latest a src = none)) :
    ∃ m', device.exec eeInit (powerAnswers (some 3)) m = ⟨none, m', []⟩ ∧
      m'.virtAddVarTab = m.virtAddVarTab ∧ BothValid m'.flash := by
  have hspace : ([] : List Entry).length < capacity := by decide
  have hcopied := h.programEntry hspace hvirt data
  obtain ⟨hboth, -⟩ := hcopied.markValid
  have hused : emptyLoop ((programSlot m.flash page.other 1 virtAddress data).programHalfWord
      page.other.base validPage) pageSize (getSectorAddress page.id) = false := by
    rw [Bool.eq_false_iff]
    intro hempty
    have hstatus := (blank_of_emptyLoop hempty).status
    cases page
    · exact absurd (hboth.1.symm.trans hstatus) (by decide)
    · exact absurd (hboth.2.symm.trans hstatus) (by decide)
  have hloop : device.exec (initLoop page.other (virtAddress :: rest) 0 (-1))
      [.done, .done, .done, .cut] m =
      ⟨some .complete, { m with
          flash := programSlot m.flash page.other 1 virtAddress data
          dataVar := data }, [.done, .cut]⟩ := by
    simp only [initLoop, Program.read, bind_eq, look_bind, ret_bind, Device.exec, h.2.half_first]
    rw [if_neg (fun hfirst : first [] = virtAddress => hvirt hfirst.symm),
      if_pos (by decide : ((0 : Nat) : Int) ≠ -1), Device.exec_bind,
      exec_transferVariable_found h hspace hvirt hvalue]
    have hread : Receiving { m with
        flash := programSlot m.flash page.other 1 virtAddress data
        dataVar := data }.flash page src [(virtAddress, data)] := hcopied
    exact exec_initLoop_missing hread rest (by decide) hrest
  refine ⟨{ m with
    flash := (programSlot m.flash page.other 1 virtAddress data).programHalfWord
      page.other.base validPage
    dataVar := data }, ?_, rfl, hboth⟩
  simp only [eeInit, initTransfer, Program.read, bind_eq, look_bind, ret_bind, Device.exec,
    initSwitch_receiving h, htab, Device.exec_bind, powerAnswers, List.replicate,
    List.cons_append, List.nil_append, hloop]
  simp only [eeEraseSectorIfNotEmpty, Program.read, attempt, bind_eq, look_bind, ret_bind,
    op_bind, Device.exec, ne_eq, not_true_eq_false, if_false, device, perform, Page.other_other,
    hused, Bool.false_eq_true]

end Exec

/-- One variable is written until its page is full. The next write is cut after
one operation, the boot that recovers from it after three. -/
def lossyRun (virtAddress : Half) : List Event :=
  List.replicate capacity (.write virtAddress 7 none) ++
    [.write virtAddress 8 (some 1), .boot (some 3), .boot none]

/-- Filling a page with one variable. -/
theorem run_fill {tab : List Half} {virtAddress : Half} (htab : ∀ a ∈ tab, a ≠ erased)
    (hvirt : virtAddress ≠ erased) {n : Nat} (hn : n ≤ capacity) :
    ∃ s, (freshLedger tab).run (List.replicate n (.write virtAddress 7 none)) = s ∧
      s.running = true ∧ s.mem.virtAddVarTab = tab ∧
      Clean s.mem.flash .page0 (List.replicate n (virtAddress, 7)) ∧
      (0 < n → s.values virtAddress = some 7) := by
  induction n with
  | zero => exact ⟨_, rfl, rfl, rfl, clean_formatted, fun h => absurd h (Nat.lt_irrefl 0)⟩
  | succ n ih =>
      obtain ⟨s, hs, hrunning, hmem, hclean, -⟩ := ih (by omega)
      have hlength : (List.replicate n (virtAddress, (7 : Half))).length < capacity := by
        rw [List.length_replicate]
        omega
      have hexec : device.exec (eeWriteVariable virtAddress 7) (powerAnswers none) s.mem =
          ⟨some .complete, (device.run (eeWriteVariable virtAddress 7) s.mem).2, []⟩ ∧
          (device.run (eeWriteVariable virtAddress 7) s.mem).2.virtAddVarTab = tab ∧
          Clean (device.run (eeWriteVariable virtAddress 7) s.mem).2.flash .page0
            (List.replicate (n + 1) (virtAddress, 7)) := by
        rcases (meets_writeVariable honest_false htab hvirt hmem hclean).undisturbed with
          ⟨hstatus, hm, hwritten⟩ | ⟨-, -, hfull, -⟩
        · refine ⟨?_, hm, ?_⟩
          · rw [powerAnswers, Device.exec_nil, hstatus]
          · rw [List.replicate_succ']
            exact (hwritten.resolve_right fun h => absurd h.1 (Nat.ne_of_lt hlength)).2
        · exact absurd hfull (Nat.ne_of_lt hlength)
      rw [List.replicate_succ', run_concat, hs, step_write_complete hrunning hexec.1]
      exact ⟨_, rfl, hrunning, hexec.2.1, hexec.2.2, fun _ => Function.update_self _ _ _⟩

theorem latest_replicate_of_ne {a virtAddress data : Half} (h : virtAddress ≠ a) (n : Nat) :
    latest a (List.replicate n (virtAddress, data)) = none :=
  latest_append_replicate [] n h

theorem not_noLoss_lossyRun {tab rest : List Half} {virtAddress : Half}
    (htab : ∀ a ∈ tab, a ≠ erased) (hhead : tab = virtAddress :: rest) :
    ¬NoLoss tab (freshLedger tab) (lossyRun virtAddress) := by
  have hmem : virtAddress ∈ tab := by
    rw [hhead]
    exact List.mem_cons_self
  have hvirt := htab virtAddress hmem
  obtain ⟨s, hs, hrunning, htable, hclean, hvalue⟩ :=
    run_fill htab hvirt (Nat.le_refl capacity)
  have hfull : (List.replicate capacity (virtAddress, (7 : Half))).length = capacity :=
    List.length_replicate
  -- the write is cut with the receiver marked and empty
  have hwrite : s.step (.write virtAddress 8 (some 1)) = _ :=
    step_write_cut hrunning (exec_write_cut hclean hfull)
  have hreceiving := hclean.markReceiving
  -- the boot is cut with both pages valid
  have hlatest :
      latest virtAddress (List.replicate capacity (virtAddress, (7 : Half))) = some 7 := by
    rw [show capacity = 4094 + 1 from rfl, List.replicate_succ']
    exact latest_concat_self _ _ _
  have hrest : ∀ a ∈ rest, a ≠ erased ∧ (a = virtAddress ∨
      latest a (List.replicate capacity (virtAddress, (7 : Half))) = none) := by
    intro a ha
    refine ⟨htab a (by rw [hhead]; exact List.mem_cons_of_mem _ ha), ?_⟩
    by_cases hav : a = virtAddress
    · exact Or.inl hav
    · exact Or.inr (latest_replicate_of_ne (Ne.symm hav) _)
  obtain ⟨m, hexec, htable', hboth⟩ := exec_init_cut
    (m := { s.mem with
      flash := s.mem.flash.programHalfWord Page.page0.other.base receiveData
      dataVar := 0 }) hreceiving (htable.trans hhead) hvirt hlatest hrest
  have hboot := step_boot_cut (s := s.step (.write virtAddress 8 (some 1)))
    (by rw [hwrite]; exact hexec)
  -- the last boot formats
  rcases (meets_init_bothValid honest_false
    (show ({ m with dataVar := 0 } : Mem).virtAddVarTab = tab from htable'.trans htable)
    hboth : Meets _ _ _ (fun _ => False) _ _).undisturbed with ⟨-, -, hempty⟩ | ⟨-, hfalse⟩
  swap
  · exact hfalse.elim
  intro hnoLoss
  have hlast := hnoLoss
    (List.replicate capacity (.write virtAddress 7 none) ++
      [.write virtAddress 8 (some 1), .boot (some 3)]) none ⟨[], by simp [lossyRun]⟩
  rw [run_append_pair, hs, hboot, hwrite] at hlast
  rw [step_boot_done (Device.exec_nil _ _ _)] at hlast
  have hkept := hlast rfl virtAddress hmem
  rw [show readBack _ virtAddress = latest virtAddress [] from hempty.readBack hvirt] at hkept
  rcases hkept with hkept | ⟨data, -, hkept⟩
  · exact absurd (hkept.trans (hvalue (by decide))) (by simp)
  · exact absurd hkept (by simp)

/-- With the table of `conf_general_init`: variable 1000 was written 4095 times
and is not found after the third boot. -/
theorem not_noLoss_virtAddVarTab :
    Started virtAddVarTab (freshLedger virtAddVarTab) ∧
      (∀ event ∈ lossyRun 1000, event.OnTable virtAddVarTab) ∧
      ¬NoLoss virtAddVarTab (freshLedger virtAddVarTab) (lossyRun 1000) := by
  have htab : ∀ a ∈ virtAddVarTab, a ≠ erased := fun a => virtAddVarTab_ne_ones
  obtain ⟨rest, hhead⟩ := virtAddVarTab_head
  refine ⟨started_fresh htab, fun event hevent => ?_, not_noLoss_lossyRun htab hhead⟩
  have hmem : (1000 : Half) ∈ virtAddVarTab := by
    rw [hhead]
    exact List.mem_cons_self
  rcases List.mem_append.1 hevent with hevent | hevent
  · rw [List.eq_of_mem_replicate hevent]
    exact hmem
  · simp only [List.mem_cons, List.not_mem_nil, or_false] at hevent
    rcases hevent with rfl | rfl | rfl
    · exact hmem
    · trivial
    · trivial

end Bldc.Eeprom
