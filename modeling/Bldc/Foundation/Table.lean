import Mathlib.Data.List.Infix
import Mathlib.Tactic.Common

/-!
# Tables that are filled from the front

An index outside of a table makes a write fail. A table that is filled from the front begins
with the items it has got, and may hold the same padding in all of its other places.
-/

namespace Bldc.Foundation

variable {α : Type}

/-- A write with a check of the index. -/
def writeAt (table : List α) (i : Nat) (x : α) : Option (List α) :=
  if i < table.length then some (table.set i x) else none

/-- A read and a write with a check of the index. -/
def modifyAt (table : List α) (i : Nat) (f : α → α) : Option (List α) :=
  table[i]?.map fun x => table.set i (f x)

/-- A loop that writes the first places. -/
def fillTo (count : Nat) (x : α) (table : List α) : Option (List α) :=
  (List.range count).foldlM (fun table i => writeAt table i x) table

/-- The items and then nothing but padding. -/
def Padded (pad : α) (items table : List α) : Prop :=
  ∃ rest, table = items ++ List.replicate rest pad

theorem set_length_append (items : List α) (x y : α) (rest : List α) :
    (items ++ x :: rest).set items.length y = items ++ y :: rest := by
  rw [List.set_append_right _ _ (Nat.le_refl _), Nat.sub_self, List.set_cons_zero]

theorem getElem?_length_append (items : List α) (x : α) (rest : List α) :
    (items ++ x :: rest)[items.length]? = some x := by
  rw [List.getElem?_append_right (Nat.le_refl _), Nat.sub_self, List.getElem?_cons_zero]

theorem snoc_isPrefix (items : List α) (x : α) (rest : List α) :
    items ++ [x] <+: items ++ x :: rest := ⟨rest, (List.append_cons items x rest).symm⟩

theorem modifyAt_append (items : List α) (x : α) (rest : List α) (f : α → α) :
    modifyAt (items ++ x :: rest) items.length f = some (items ++ f x :: rest) := by
  rw [modifyAt, getElem?_length_append, Option.map_some, set_length_append]

/-- The next item of a table that has room for it. -/
theorem writeAt_snoc {items table : List α} (h : items <+: table)
    (hroom : items.length < table.length) (x : α) :
    ∃ table', writeAt table items.length x = some table' ∧ items ++ [x] <+: table' ∧
      table'.length = table.length := by
  refine ⟨table.set items.length x, if_pos hroom, ?_, List.length_set⟩
  obtain ⟨rest, rfl⟩ := h
  cases rest with
  | nil => simp at hroom
  | cons y rest =>
      rw [set_length_append]
      exact snoc_isPrefix items x rest

/-- The last item of a table is changed. -/
theorem modifyAt_last {items table : List α} {x : α} (h : items ++ [x] <+: table) (f : α → α) :
    ∃ table', modifyAt table items.length f = some table' ∧ items ++ [f x] <+: table' ∧
      table'.length = table.length := by
  obtain ⟨rest, rfl⟩ := h
  rw [List.append_assoc, List.singleton_append, modifyAt_append]
  exact ⟨_, rfl, snoc_isPrefix items (f x) rest, by simp⟩

namespace Padded

variable {pad x : α} {items table : List α}

theorem begins (h : Padded pad items table) : items <+: table := by
  obtain ⟨rest, rfl⟩ := h
  exact List.prefix_append _ _

/-- The padding is an item as good as any. -/
theorem snoc (h : Padded pad items table) (hroom : items.length < table.length) :
    Padded pad (items ++ [pad]) table := by
  obtain ⟨rest, rfl⟩ := h
  cases rest with
  | zero => simp at hroom
  | succ rest => exact ⟨rest, by rw [List.append_assoc, List.replicate_succ]; rfl⟩

theorem modifyAt_last (h : Padded pad (items ++ [x]) table) (f : α → α) :
    ∃ table', modifyAt table items.length f = some table' ∧ Padded pad (items ++ [f x]) table' ∧
      table'.length = table.length := by
  obtain ⟨rest, rfl⟩ := h
  rw [List.append_assoc, List.singleton_append, modifyAt_append]
  exact ⟨_, rfl, ⟨rest, List.append_cons _ _ _⟩, by simp⟩

end Padded

/-- The loop that fills a table leaves what is behind its end. -/
theorem fillTo_eq {count : Nat} {table : List α} (hcount : count ≤ table.length) (x : α) :
    fillTo count x table = some (List.replicate count x ++ table.drop count) := by
  induction count with
  | zero => simp [fillTo]
  | succ count ih =>
      have hlt : count < table.length := hcount
      have hset := set_length_append (List.replicate count x) table[count] x
        (table.drop (count + 1))
      rw [List.length_replicate] at hset
      have hwrite : writeAt (List.replicate count x ++ table.drop count) count x =
          some (List.replicate count x ++ x :: table.drop (count + 1)) := by
        rw [writeAt, if_pos (by simp; omega), List.drop_eq_getElem_cons hlt, hset]
      rw [fillTo] at ih
      rw [fillTo, List.range_succ, List.foldlM_append, ih hlt.le]
      show (writeAt _ count x).bind some = _
      rw [hwrite, Option.bind_some, List.replicate_succ', List.append_assoc]
      rfl

theorem fillTo_padded {count : Nat} {table : List α} (hlength : table.length = count) (x : α) :
    ∃ table', fillTo count x table = some table' ∧ Padded x [] table' ∧
      table'.length = table.length := by
  refine ⟨_, fillTo_eq hlength.ge x, ⟨count, ?_⟩, by simp [hlength]⟩
  rw [List.drop_eq_nil_of_le hlength.le, List.append_nil, List.nil_append]

end Bldc.Foundation
