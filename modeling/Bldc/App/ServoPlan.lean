import Bldc.App.Servo

/-!
# The plan of a pulse

What the tables of the servo outputs say: groups of pins that are cleared at one time. The plan
grows by one servo after another, and each servo is cleared once, at its own position.
-/

namespace Bldc.App

open Flash Foundation

variable {π : Type}

/-- Pins of one port that are cleared together, with the number of their servos. -/
structure Entry (π : Type) where
  port : π
  mask : Word
  count : Byte

/-- What is cleared at one position. -/
structure Group (π : Type) where
  pos : Int
  entries : List (Entry π)

/-- The groups that are complete, and the one that still grows with its last entry. -/
structure Plan (π : Type) where
  finished : List (Group π)
  pos : Int
  entries : List (Entry π)
  entry : Entry π

/-- An entry for one servo. -/
def Entry.single (servo : Servo π) : Entry π := ⟨servo.gpio, bv servo.pin, 1⟩

/-- One servo more on the same port. -/
def Entry.extend (e : Entry π) (servo : Servo π) : Entry π :=
  ⟨e.port, e.mask ||| bv servo.pin, e.count + 1⟩

/-- What an entry clears. -/
def Entry.Clears (e : Entry π) (pad : π × Fin 16) : Prop :=
  e.port = pad.1 ∧ e.mask.getLsbD pad.2 = true

instance [DecidableEq π] (e : Entry π) : DecidablePred e.Clears := fun pad =>
  inferInstanceAs (Decidable (e.port = pad.1 ∧ e.mask.getLsbD pad.2 = true))

/-- The entries of some groups, each with its position. -/
def clearings (groups : List (Group π)) : List (Int × Entry π) :=
  groups.flatMap fun group => group.entries.map fun e => (group.pos, e)

/-- The positions at which a pin is cleared. -/
def timesOf [DecidableEq π] (cleared : List (Int × Entry π)) (pad : π × Fin 16) : List Int :=
  (cleared.filter fun clearing => clearing.2.Clears pad).map Prod.fst

namespace Plan

/-- All groups. -/
def groups (p : Plan π) : List (Group π) := p.finished ++ [⟨p.pos, p.entries ++ [p.entry]⟩]

/-- All entries but the last one. -/
def before (p : Plan π) : List (Entry π) := p.finished.flatMap Group.entries ++ p.entries

/-- The plan for one servo. -/
def start (servo : Servo π) : Plan π := ⟨[], servo.actualPos, [], .single servo⟩

variable [DecidableEq π]

/-- One servo more, at the last position or at a new one. -/
def add (p : Plan π) (servo : Servo π) : Plan π :=
  if servo.actualPos = p.pos then
    if servo.gpio = p.entry.port then { p with entry := p.entry.extend servo }
    else { p with entries := p.entries ++ [p.entry], entry := .single servo }
  else ⟨p.groups, servo.actualPos, [], .single servo⟩

/-- The plan for some servos. -/
def ofServos (first : Servo π) (rest : List (Servo π)) : Plan π := rest.foldl add (start first)

/-- The positions at which the plan clears a pin. -/
def clearTimes (p : Plan π) (pad : π × Fin 16) : List Int := timesOf (clearings p.groups) pad

theorem ofServos_snoc (first : Servo π) (rest : List (Servo π)) (servo : Servo π) :
    ofServos first (rest ++ [servo]) = (ofServos first rest).add servo := by
  rw [ofServos, List.foldl_append]
  rfl

end Plan

/-! ## What is cleared -/

theorem getLsbD_bv (pin pin' : Fin 16) : (bv pin).getLsbD pin' = decide (pin = pin') := by
  revert pin pin'
  decide

theorem single_clears (servo : Servo π) (pad : π × Fin 16) :
    (Entry.single servo).Clears pad ↔ pad = servo.pad := by
  rw [Entry.Clears, Entry.single, getLsbD_bv, decide_eq_true_eq, Servo.pad, Prod.ext_iff]
  exact and_congr eq_comm eq_comm

theorem extend_clears {e : Entry π} {servo : Servo π} (hport : servo.gpio = e.port)
    (pad : π × Fin 16) : (e.extend servo).Clears pad ↔ e.Clears pad ∨ pad = servo.pad := by
  rw [← single_clears, Entry.Clears, Entry.Clears, Entry.Clears, Entry.extend, Entry.single,
    BitVec.getLsbD_or, Bool.or_eq_true, hport]
  exact and_or_left

theorem clearings_append (groups rest : List (Group π)) :
    clearings (groups ++ rest) = clearings groups ++ clearings rest := List.flatMap_append

section Times

variable [DecidableEq π]

theorem timesOf_append (cleared rest : List (Int × Entry π)) (pad : π × Fin 16) :
    timesOf (cleared ++ rest) pad = timesOf cleared pad ++ timesOf rest pad := by
  rw [timesOf, List.filter_append, List.map_append]
  rfl

theorem timesOf_singleton (pos : Int) (e : Entry π) (pad : π × Fin 16) :
    timesOf [(pos, e)] pad = if e.Clears pad then [pos] else [] := by
  by_cases h : e.Clears pad
  · simp [timesOf, h]
  · simp [timesOf, h]

end Times

namespace Plan

/-- The entries of the plan but for the last one. -/
def clearedBefore (p : Plan π) : List (Int × Entry π) :=
  clearings p.finished ++ p.entries.map (Prod.mk p.pos)

theorem clearings_groups (p : Plan π) :
    clearings p.groups = p.clearedBefore ++ [(p.pos, p.entry)] := by
  rw [groups, clearings_append, clearedBefore]
  simp [clearings]

variable [DecidableEq π] {p : Plan π} {servo : Servo π}

theorem clearTimes_eq (p : Plan π) (pad : π × Fin 16) :
    p.clearTimes pad =
      timesOf p.clearedBefore pad ++ if p.entry.Clears pad then [p.pos] else [] := by
  rw [clearTimes, clearings_groups, timesOf_append, timesOf_singleton]

/-- The servo that has come in last is at the end of the plan. -/
theorem add_last (p : Plan π) (servo : Servo π) :
    (p.add servo).pos = servo.actualPos ∧ (p.add servo).entry.port = servo.gpio := by
  unfold add
  split
  next hpos =>
    split
    next hport => exact ⟨hpos.symm, hport.symm⟩
    next => exact ⟨hpos.symm, rfl⟩
  next => exact ⟨rfl, rfl⟩

/-- A servo at the position and on the port of the last entry. -/
theorem clearTimes_extend (hfree : p.clearTimes servo.pad = []) (hport : servo.gpio = p.entry.port)
    (pad : π × Fin 16) :
    ({ p with entry := p.entry.extend servo } : Plan π).clearTimes pad =
      p.clearTimes pad ++ if pad = servo.pad then [p.pos] else [] := by
  rw [clearTimes_eq] at hfree
  have hunset : ¬p.entry.Clears servo.pad := by
    intro hset
    rw [if_pos hset] at hfree
    exact List.append_ne_nil_of_right_ne_nil _ (List.cons_ne_nil _ _) hfree
  rw [clearTimes_eq, clearTimes_eq, List.append_assoc]
  refine congrArg (timesOf p.clearedBefore pad ++ ·) ?_
  simp only [extend_clears hport]
  by_cases hpad : pad = servo.pad
  · rw [if_pos (.inr hpad), if_pos hpad, if_neg (hpad ▸ hunset), List.nil_append]
  · rw [if_neg hpad, List.append_nil]
    exact if_congr (or_iff_left hpad) rfl rfl

/-- A servo that comes in on a pin of its own is cleared at its position, and nothing else
changes. -/
theorem clearTimes_add (hfree : p.clearTimes servo.pad = []) (pad : π × Fin 16) :
    (p.add servo).clearTimes pad =
      p.clearTimes pad ++ if pad = servo.pad then [servo.actualPos] else [] := by
  have hnew (cleared : List (Int × Entry π)) (pos : Int) :
      timesOf (cleared ++ [(pos, .single servo)]) pad =
        timesOf cleared pad ++ if pad = servo.pad then [pos] else [] := by
    rw [timesOf_append, timesOf_singleton]
    simp only [single_clears]
  unfold add
  split
  next hpos =>
    rw [hpos]
    split
    next hport => exact clearTimes_extend hfree hport pad
    next =>
      rw [clearTimes, clearTimes, clearings_groups, clearings_groups, hnew]
      congr 2
      simp [clearedBefore]
  next =>
    rw [clearTimes, clearings_groups, hnew]
    congr 2
    simp [clearedBefore]

/-- The servos that are on a pin, by their positions. -/
theorem filter_pad_snoc (servos : List (Servo π)) (servo : Servo π) (pad : π × Fin 16) :
    ((servos ++ [servo]).filter fun servo => pad = servo.pad).map Servo.actualPos =
      (servos.filter fun servo => pad = servo.pad).map Servo.actualPos ++
        if pad = servo.pad then [servo.actualPos] else [] := by
  rw [List.filter_append, List.map_append, List.filter_singleton]
  by_cases hpad : pad = servo.pad
  · simp [hpad]
  · simp [hpad]

theorem clearTimes_ofServos {first : Servo π} {rest : List (Servo π)}
    (hpads : ((first :: rest).map Servo.pad).Nodup) (pad : π × Fin 16) :
    (ofServos first rest).clearTimes pad =
      ((first :: rest).filter fun servo => pad = servo.pad).map Servo.actualPos := by
  induction rest using List.reverseRecOn generalizing pad with
  | nil =>
      have hsingle := filter_pad_snoc [] first pad
      rw [ofServos, List.foldl_nil, clearTimes_eq]
      simp only [start, single_clears]
      exact hsingle.symm
  | append_singleton rest servo ih =>
      rw [← List.cons_append, List.map_append, List.nodup_append] at hpads
      obtain ⟨hfirst, -, hapart⟩ := hpads
      have hfree : (ofServos first rest).clearTimes servo.pad = [] := by
        rw [ih hfirst, List.map_eq_nil_iff, List.filter_eq_nil_iff]
        intro other hother heq
        exact hapart other.pad (List.mem_map_of_mem hother) servo.pad List.mem_cons_self
          (of_decide_eq_true heq).symm
      rw [ofServos_snoc, clearTimes_add hfree, ih hfirst, ← List.cons_append, filter_pad_snoc]

/-- Each servo is cleared once, at its position. -/
theorem clearTimes_mem {first : Servo π} {rest : List (Servo π)}
    (hpads : ((first :: rest).map Servo.pad).Nodup) {servo : Servo π}
    (hservo : servo ∈ first :: rest) :
    (ofServos first rest).clearTimes servo.pad = [servo.actualPos] := by
  rw [clearTimes_ofServos hpads]
  generalize first :: rest = servos at hpads hservo
  induction servos with
  | nil => exact absurd hservo List.not_mem_nil
  | cons other servos ih =>
      rw [List.map_cons, List.nodup_cons] at hpads
      obtain ⟨hother, hrest⟩ := hpads
      rcases List.mem_cons.1 hservo with rfl | hmem
      · have hnone : servos.filter (fun other => servo.pad = other.pad) = [] := by
          rw [List.filter_eq_nil_iff]
          intro other hmem heq
          exact hother (of_decide_eq_true heq ▸ List.mem_map_of_mem hmem)
        rw [List.filter_cons_of_pos (by simp), hnone]
        rfl
      · have hne : servo.pad ≠ other.pad := fun heq => hother (heq ▸ List.mem_map_of_mem hmem)
        rw [List.filter_cons_of_neg (by simpa using hne)]
        exact ih hrest hmem

end Plan

end Bldc.App
