import Mathlib.Data.List.Dedup
import Mathlib.Data.List.Infix
import Mathlib.Tactic.Common

/-!
# Tables that fill up

Items with keys come in, and a table of a fixed number of slots keeps the latest item of
each key. The first keys get the slots in the order in which they come; once the table is
full, other keys are dropped. A loop that takes the first slot with the key or with a mark
for free slots does this, as long as the free slots come last.
-/

namespace Bldc.Foundation

variable {α κ : Type} [DecidableEq κ] (key : α → κ)

/-- The keys of the items, each at the place where it comes first. -/
def firstKeys (items : List α) : List κ := (items.map key).reverse.dedup.reverse

/-- The last item with the key. -/
def latestItem (items : List α) (k : κ) : Option α := items.reverse.find? fun item => key item = k

/-- What a table of so many slots keeps. -/
def kept (size : Nat) (items : List α) : List α :=
  ((firstKeys key items).take size).filterMap (latestItem key items)

/-- The item replaces the one with its key, or it takes a slot of its own. -/
def storeItem (size : Nat) (item : α) (table : List α) : List α :=
  if key item ∈ table.map key then
    table.map fun slot => if key slot = key item then item else slot
  else if table.length < size then table ++ [item] else table

/-- The loop over the slots. -/
def scanSlots (free : κ) (item : α) : List α → List α
  | [] => []
  | slot :: rest =>
      if key slot = key item ∨ key slot = free then item :: rest
      else slot :: scanSlots free item rest

/-! ## Keys -/

theorem firstKeys_snoc (items : List α) (item : α) :
    firstKeys key (items ++ [item]) =
      if key item ∈ items.map key then firstKeys key items
      else firstKeys key items ++ [key item] := by
  unfold firstKeys
  rw [List.map_append, List.map_singleton, List.reverse_append, List.reverse_singleton,
    List.singleton_append]
  split
  next hmem => rw [List.dedup_cons_of_mem (List.mem_reverse.2 hmem)]
  next hmem =>
    rw [List.dedup_cons_of_notMem (mt List.mem_reverse.1 hmem), List.reverse_cons]

theorem mem_firstKeys {items : List α} {k : κ} : k ∈ firstKeys key items ↔ k ∈ items.map key := by
  simp [firstKeys]

theorem firstKeys_nodup (items : List α) : (firstKeys key items).Nodup :=
  List.nodup_reverse.2 (List.nodup_dedup _)

/-- A key keeps its place. -/
theorem firstKeys_extends (items later : List α) :
    firstKeys key items <+: firstKeys key (items ++ later) := by
  induction later using List.reverseRecOn with
  | nil => simp
  | append_singleton later item ih =>
      rw [← List.append_assoc, firstKeys_snoc]
      split
      next => exact ih
      next => exact ih.trans (List.prefix_append _ _)

theorem latestItem_snoc (items : List α) (item : α) (k : κ) :
    latestItem key (items ++ [item]) k =
      if key item = k then some item else latestItem key items k := by
  unfold latestItem
  rw [List.reverse_append, List.reverse_singleton, List.singleton_append, List.find?_cons]
  by_cases hkey : key item = k <;> simp [hkey]

theorem key_of_latestItem {items : List α} {k : κ} {item : α}
    (h : latestItem key items k = some item) : key item = k := by
  simpa using List.find?_some h

theorem latestItem_of_mem {items : List α} {k : κ} (h : k ∈ items.map key) :
    ∃ item, latestItem key items k = some item := by
  obtain ⟨item, hitem, hkey⟩ := List.mem_map.1 h
  exact Option.isSome_iff_exists.1 (List.find?_isSome.2
    ⟨item, List.mem_reverse.2 hitem, decide_eq_true hkey⟩)

/-! ## What is kept -/

section Kept

variable {size : Nat} {items : List α} {item : α}

@[simp] theorem kept_nil (size : Nat) : kept key size [] = [] := by simp [kept, firstKeys]

/-- The slots have the first keys. -/
theorem kept_map_key (size : Nat) (items : List α) :
    (kept key size items).map key = (firstKeys key items).take size := by
  have hall : ∀ k ∈ (firstKeys key items).take size, k ∈ items.map key :=
    fun k hk => (mem_firstKeys key).1 (List.mem_of_mem_take hk)
  unfold kept
  generalize (firstKeys key items).take size = keys at hall
  induction keys with
  | nil => rfl
  | cons k keys ih =>
      obtain ⟨item, hitem⟩ := latestItem_of_mem key (hall k List.mem_cons_self)
      rw [List.filterMap_cons_some hitem, List.map_cons, key_of_latestItem key hitem,
        ih fun k' hk' => hall k' (List.mem_cons_of_mem k hk')]

theorem kept_nodup (size : Nat) (items : List α) : ((kept key size items).map key).Nodup := by
  rw [kept_map_key]
  exact (firstKeys_nodup key items).sublist (List.take_sublist _ _)

theorem kept_length (size : Nat) (items : List α) :
    (kept key size items).length = min size (firstKeys key items).length := by
  rw [← List.length_map (f := key), kept_map_key, List.length_take]

/-- A slot holds the latest item of its key. -/
theorem latestItem_of_mem_kept {slot : α} (h : slot ∈ kept key size items) :
    latestItem key items (key slot) = some slot := by
  obtain ⟨k, -, hlatest⟩ := List.mem_filterMap.1 h
  rw [key_of_latestItem key hlatest]
  exact hlatest

/-- The slots with the item in the place of the one with its key. -/
theorem filterMap_latestItem_snoc {keys : List κ} (hkeys : ∀ k ∈ keys, k ∈ items.map key) :
    keys.filterMap (latestItem key (items ++ [item])) =
      (keys.filterMap (latestItem key items)).map
        fun slot => if key slot = key item then item else slot := by
  induction keys with
  | nil => rfl
  | cons k keys ih =>
      obtain ⟨slot, hslot⟩ := latestItem_of_mem key (hkeys k List.mem_cons_self)
      have hkey := key_of_latestItem key hslot
      have hnext : latestItem key (items ++ [item]) k =
          some (if key slot = key item then item else slot) := by
        rw [latestItem_snoc, hkey, hslot]
        by_cases heq : key item = k
        · rw [if_pos heq, if_pos heq.symm]
        · rw [if_neg heq, if_neg (Ne.symm heq)]
      rw [List.filterMap_cons_some hslot, List.filterMap_cons_some hnext, List.map_cons,
        ih fun k' hk' => hkeys k' (List.mem_cons_of_mem k hk')]

theorem map_replace_of_notMem {table : List α} (h : key item ∉ table.map key) :
    (table.map fun slot => if key slot = key item then item else slot) = table := by
  rw [List.map_congr_left (g := id), List.map_id]
  intro slot hslot
  exact if_neg fun heq => h (List.mem_map.2 ⟨slot, hslot, heq⟩)

/-- The slots of keys that are known, after one more item. -/
theorem filterMap_latestItem_take (size : Nat) (items : List α) (item : α) :
    ((firstKeys key items).take size).filterMap (latestItem key (items ++ [item])) =
      (kept key size items).map fun slot => if key slot = key item then item else slot :=
  filterMap_latestItem_snoc key fun _ hk => (mem_firstKeys key).1 (List.mem_of_mem_take hk)

/-- One more item. -/
theorem kept_snoc (size : Nat) (items : List α) (item : α) :
    kept key size (items ++ [item]) = storeItem key size item (kept key size items) := by
  have hlength := kept_length key size items
  have hreplace := filterMap_latestItem_take key size items item
  unfold storeItem
  by_cases hslot : key item ∈ (kept key size items).map key
  · have hmem : key item ∈ items.map key := by
      rw [kept_map_key] at hslot
      exact (mem_firstKeys key).1 (List.mem_of_mem_take hslot)
    rw [if_pos hslot, kept, firstKeys_snoc, if_pos hmem, hreplace]
  · rw [map_replace_of_notMem key hslot] at hreplace
    rw [kept_map_key] at hslot
    rw [kept_map_key, if_neg hslot, kept, firstKeys_snoc]
    by_cases hroom : (firstKeys key items).length < size
    · -- with room left, a key without a slot is a new one
      rw [List.take_of_length_le (by omega), mem_firstKeys] at hslot
      rw [List.take_of_length_le (by omega)] at hreplace
      have hnew : latestItem key (items ++ [item]) (key item) = some item := by
        rw [latestItem_snoc, if_pos rfl]
      rw [if_neg hslot, if_pos (by omega), List.take_of_length_le (by simp; omega),
        List.filterMap_append, hreplace, List.filterMap_cons_some hnew, List.filterMap_nil]
    · have htake : (if key item ∈ items.map key then firstKeys key items
          else firstKeys key items ++ [key item]).take size = (firstKeys key items).take size := by
        split
        next => rfl
        next => exact List.take_append_of_le_length (by omega)
      rw [htake, hreplace, if_neg (by omega)]

/-! ## The loop -/

variable {free : κ}

/-- The item takes the place of the one with its key. -/
theorem scanSlots_of_mem {used : List α} (spare : List α)
    (hfree : ∀ slot ∈ used, key slot ≠ free) (hnodup : (used.map key).Nodup)
    (hmem : key item ∈ used.map key) :
    scanSlots key free item (used ++ spare) =
      (used.map fun slot => if key slot = key item then item else slot) ++ spare := by
  induction used with
  | nil => simp at hmem
  | cons slot used ih =>
      rw [List.map_cons, List.nodup_cons] at hnodup
      rw [List.cons_append, scanSlots, List.map_cons, List.cons_append]
      by_cases hkey : key slot = key item
      · rw [if_pos (.inl hkey), if_pos hkey, map_replace_of_notMem key (hkey ▸ hnodup.1)]
      · have hrest : key item ∈ used.map key :=
          (List.mem_cons.1 hmem).resolve_left (Ne.symm hkey)
        rw [if_neg (not_or.2 ⟨hkey, hfree slot List.mem_cons_self⟩), if_neg hkey,
          ih (fun s hs => hfree s (List.mem_cons_of_mem slot hs)) hnodup.2 hrest]

/-- Without such a place it takes the first one that is free. -/
theorem scanSlots_of_notMem {used : List α} (spare : List α)
    (hfree : ∀ slot ∈ used, key slot ≠ free) (hmem : key item ∉ used.map key) :
    scanSlots key free item (used ++ spare) = used ++ scanSlots key free item spare := by
  induction used with
  | nil => rfl
  | cons slot used ih =>
      rw [List.map_cons, List.mem_cons, not_or] at hmem
      rw [List.cons_append, scanSlots,
        if_neg (not_or.2 ⟨Ne.symm hmem.1, hfree slot List.mem_cons_self⟩),
        ih (fun s hs => hfree s (List.mem_cons_of_mem slot hs)) hmem.2, List.cons_append]

/-- The table holds these items and free slots behind them. -/
structure Filled (free : κ) (size : Nat) (table used : List α) : Prop where
  spare : ∃ spare, table = used ++ spare ∧ ∀ slot ∈ spare, key slot = free
  used : ∀ slot ∈ used, key slot ≠ free
  length : table.length = size

theorem Filled.filter_eq {table used : List α} (h : Filled key free size table used) :
    table.filter (fun slot => key slot ≠ free) = used := by
  obtain ⟨⟨spare, rfl, hspare⟩, hused, -⟩ := h
  rw [List.filter_append, List.filter_eq_self.2, List.filter_eq_nil_iff.2, List.append_nil]
  · simpa using hspare
  · simpa using hused

/-- The loop stores an item. -/
theorem Filled.store {table used : List α} (h : Filled key free size table used)
    (hnodup : (used.map key).Nodup) (hitem : key item ≠ free) :
    Filled key free size (scanSlots key free item table) (storeItem key size item used) := by
  obtain ⟨⟨spare, rfl, hspare⟩, hused, hlength⟩ := h
  unfold storeItem
  split
  next hmem =>
    rw [scanSlots_of_mem key spare hused hnodup hmem]
    refine ⟨⟨spare, rfl, hspare⟩, ?_, by simpa using hlength⟩
    rintro slot hslot
    obtain ⟨old, hold, rfl⟩ := List.mem_map.1 hslot
    split
    next => exact hitem
    next => exact hused old hold
  next hmem =>
    rw [scanSlots_of_notMem key spare hused hmem]
    cases spare with
    | nil =>
        rw [List.append_nil] at hlength
        rw [if_neg (by omega)]
        exact ⟨⟨[], rfl, hspare⟩, hused, by simpa [scanSlots] using hlength⟩
    | cons slot spare =>
        obtain ⟨hslot, hrest⟩ := List.forall_mem_cons.1 hspare
        rw [List.length_append, List.length_cons] at hlength
        rw [if_pos (by omega), scanSlots, if_pos (.inr hslot)]
        refine ⟨⟨spare, by simp, hrest⟩, ?_, by simpa using hlength⟩
        rw [List.forall_mem_append, List.forall_mem_singleton]
        exact ⟨hused, hitem⟩

/-- From a table without items on, the loop keeps what a table of its size keeps. -/
theorem filled_foldl {table : List α} (hfree : ∀ slot ∈ table, key slot = free)
    (hitems : ∀ item ∈ items, key item ≠ free) :
    Filled key free table.length
      (items.foldl (fun table item => scanSlots key free item table) table)
      (kept key table.length items) := by
  induction items using List.reverseRecOn with
  | nil => exact ⟨⟨table, by simp, hfree⟩, by simp, rfl⟩
  | append_singleton items item ih =>
      rw [List.forall_mem_append, List.forall_mem_singleton] at hitems
      rw [List.foldl_append, List.foldl_cons, List.foldl_nil, kept_snoc]
      exact (ih hitems.1).store key (kept_nodup key _ items) hitems.2

end Kept

end Bldc.Foundation
