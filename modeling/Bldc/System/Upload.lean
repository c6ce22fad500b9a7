import Bldc.System.State

/-!
# Firmware upload

New firmware goes to sectors 8 to 10: `COMM_ERASE_NEW_APP` erases as many of them
as the image needs and `COMM_WRITE_NEW_APP_DATA` programs chunks at offsets the
sender chooses. Addresses are computed in 32-bit arithmetic, and only the erase
loop knows where the sectors end.
-/

namespace Bldc.Sys

open Foundation Foundation.Program Flash Eeprom

/-- `NEW_APP_BASE`. -/
def newAppBase : Sector := ⟨8, by decide⟩

/-- The `NEW_APP_SECTORS` sectors from `NEW_APP_BASE` on. -/
def newAppSectors : List Sector := [⟨8, by decide⟩, ⟨9, by decide⟩, ⟨10, by decide⟩]

/-- `flash_addr` as the code computes with it. -/
def flashAddrWord (sector : Sector) : Word := BitVec.ofNat 32 (flashAddr sector)

/-- The loop of `flash_helper_erase_new_app`; a status is an early return. -/
def eraseLoop (newAppSize : Word) : List Sector → SysProgram (Option Status)
  | [] => pure none
  | sector :: rest =>
      if newAppSize > flashAddrWord sector then do
        let res ← attempt (.eraseSector sector)
        if res ≠ .complete then pure (some res) else eraseLoop newAppSize rest
      else pure none

/-- The frame of both `flash_helper` functions: a status from the loop is
returned at once. -/
def guarded (loop : SysProgram (Option Status)) : SysProgram Status := do
  enter
  let res ← loop
  match res with
  | some res => pure res
  | none => do
      leave
      pure .complete

/-- `flash_helper_erase_new_app`. -/
def flashHelperEraseNewApp (newAppSize : Word) : SysProgram Status :=
  guarded (eraseLoop (newAppSize + flashAddrWord newAppBase) newAppSectors)

/-- The address of byte `i` of a chunk. -/
def newAppAddress (offset : Word) (i : Nat) : Nat :=
  (flashAddrWord newAppBase + offset + BitVec.ofNat 32 i).toNat

/-- The loop of `flash_helper_write_new_app_data` from byte `i` on. -/
def programLoop (offset : Word) (data : Nat → Byte) : (count i : Nat) → SysProgram (Option Status)
  | 0, _ => pure none
  | count + 1, i => do
      let res ← attempt (.programByte (newAppAddress offset i) (data i))
      if res ≠ .complete then pure (some res) else programLoop offset data count (i + 1)

/-- `flash_helper_write_new_app_data`. -/
def flashHelperWriteNewAppData (offset : Word) (data : Nat → Byte) (len : Word) :
    SysProgram Status :=
  guarded (programLoop offset data len.toNat 0)

/-- The success byte of the reply to `COMM_ERASE_NEW_APP`. -/
def commEraseNewApp (newAppSize : Word) : SysProgram Bool := do
  let flashRes ← flashHelperEraseNewApp newAppSize
  pure (flashRes == .complete)

/-- The payload of a `COMM_WRITE_NEW_APP_DATA` packet. -/
structure Chunk where
  offset : Word
  data : Nat → Byte
  len : Word

/-- The success byte of the reply to `COMM_WRITE_NEW_APP_DATA`. -/
def commWriteNewAppData (chunk : Chunk) : SysProgram Bool := do
  let flashRes ← flashHelperWriteNewAppData chunk.offset chunk.data chunk.len
  pure (flashRes == .complete)

def writeChunks : List Chunk → SysProgram (List Bool)
  | [] => pure []
  | chunk :: rest => do
      let reply ← commWriteNewAppData chunk
      let replies ← writeChunks rest
      pure (reply :: replies)

/-- An upload: one erase request, then the chunks. -/
def upload (size : Word) (chunks : List Chunk) : SysProgram (List Bool) := do
  let reply ← commEraseNewApp size
  let replies ← writeChunks chunks
  pure (reply :: replies)

/-! ## Confinement -/

/-- Addresses of sectors 8 to 10. -/
def InNewApp (address : Nat) : Prop := 0x08080000 ≤ address ∧ address < 0x080E0000

instance (address : Nat) : Decidable (InNewApp address) := inferInstanceAs (Decidable (_ ∧ _))

/-- Every byte of the chunk lies in sectors 8 to 10. -/
def InBounds (chunk : Chunk) : Prop :=
  chunk.len ≠ 0 → chunk.offset.toNat + chunk.len.toNat ≤ 0x60000

/-- However the program runs, and wherever it is stopped, memory outside sectors
8 to 10 is unchanged. -/
def Confined {α : Type} (program : SysProgram α) : Prop :=
  ∀ answers s address, ¬InNewApp address →
    (device.exec program answers s).state.mem.flash address = s.mem.flash address

section Confined

variable {α β : Type}

theorem confined_ret (value : α) : Confined (ret value) := fun _ _ _ _ => rfl

theorem confined_bind {program : SysProgram α} {next : α → SysProgram β} (h : Confined program)
    (hnext : ∀ value, Confined (next value)) : Confined (program.bind next) := by
  intro answers s address haddress
  have hfirst := h answers s address haddress
  rw [Device.exec_bind]
  rcases hexec : device.exec program answers s with ⟨_ | value, middle, rest⟩ <;>
    rw [hexec] at hfirst
  · exact hfirst
  · exact (hnext value rest middle address haddress).trans hfirst

theorem confined_op {operation : Op} {next : Status → SysProgram α}
    (h : ∀ flash address, ¬InNewApp address → perform operation flash address = flash address)
    (hnext : ∀ status, Confined (next status)) : Confined (op operation next) := by
  intro answers s address haddress
  have hperform : (device.perform operation s).mem.flash address = s.mem.flash address :=
    h s.mem.flash address haddress
  cases answers with
  | nil => exact (hnext _ _ _ address haddress).trans hperform
  | cons answer answers =>
      cases answer with
      | done => exact (hnext _ _ _ address haddress).trans hperform
      | fail status performed =>
          cases performed
          · exact hnext _ _ _ address haddress
          · exact (hnext _ _ _ address haddress).trans hperform
      | cut => rfl

theorem confined_ite {c : Prop} [Decidable c] {program program' : SysProgram α}
    (h : c → Confined program) (h' : ¬c → Confined program') :
    Confined (if c then program else program') := by
  split
  · exact h ‹c›
  · exact h' ‹¬c›

theorem entered_mem (s : System) : (entered s).mem = s.mem := by rw [entered_eq]

theorem left_mem (s : System) : (left s).mem = s.mem := by
  unfold left utilsSysUnlockCnt wwdgClockCmd
  split <;> rfl

theorem confined_enter : Confined enter := by
  intro answers s address _
  change (entered s).mem.flash address = _
  rw [entered_mem]

theorem confined_leave : Confined leave := by
  intro answers s address _
  change (left s).mem.flash address = _
  rw [left_mem]

theorem confined_eraseLoop (newAppSize : Word) {sectors : List Sector}
    (h : sectors ⊆ newAppSectors) : Confined (eraseLoop newAppSize sectors) := by
  induction sectors with
  | nil => exact confined_ret _
  | cons sector rest ih =>
      have hsector : ∀ address, ¬InNewApp address →
          ¬(flashAddr sector ≤ address ∧ address < sectorEnd sector) := by
        have hmem := h List.mem_cons_self
        simp only [newAppSectors, List.mem_cons, List.not_mem_nil, or_false] at hmem
        unfold InNewApp
        rcases hmem with rfl | rfl | rfl <;> intro address <;>
          simp only [flashAddr, sectorEnd] <;> simp <;> omega
      refine confined_ite (fun _ => ?_) fun _ => confined_ret _
      refine confined_op (fun flash address haddress => ?_) fun status =>
        confined_ite (fun _ => confined_ret _) fun _ => ih (List.cons_subset.1 h).2
      exact if_neg (hsector address haddress)

/-- Inside the sectors the address computation does not wrap. -/
theorem newAppAddress_eq {offset : Word} {i : Nat} (h : offset.toNat + i < 0x60000) :
    newAppAddress offset i = 0x08080000 + (offset.toNat + i) := by
  have hbase : (flashAddrWord newAppBase).toNat = 0x08080000 := by decide
  rw [newAppAddress, BitVec.toNat_add, BitVec.toNat_add, hbase, BitVec.toNat_ofNat]
  omega

theorem confined_programLoop {offset : Word} (data : Nat → Byte) (count : Nat) :
    ∀ {i : Nat}, offset.toNat + (i + count) ≤ 0x60000 →
      Confined (programLoop offset data count i) := by
  induction count with
  | zero => exact fun _ => confined_ret _
  | succ count ih =>
      intro i h
      refine confined_op (fun flash address haddress => if_neg ?_) fun status =>
        confined_ite (fun _ => confined_ret _) fun _ => ih (by omega)
      intro heq
      rw [heq, newAppAddress_eq (by omega)] at haddress
      exact haddress ⟨by omega, by omega⟩

theorem confined_guarded {loop : SysProgram (Option Status)} (h : Confined loop) :
    Confined (guarded loop) := by
  refine confined_bind confined_enter fun _ => confined_bind h fun res => ?_
  cases res with
  | none => exact confined_bind confined_leave fun _ => confined_ret _
  | some res => exact confined_ret _

theorem confined_commEraseNewApp (size : Word) : Confined (commEraseNewApp size) :=
  confined_bind (confined_guarded (confined_eraseLoop _ (List.Subset.refl _))) fun _ =>
    confined_ret _

theorem confined_commWriteNewAppData {chunk : Chunk} (h : InBounds chunk) :
    Confined (commWriteNewAppData chunk) := by
  refine confined_bind (confined_guarded ?_) fun _ => confined_ret _
  by_cases hlen : chunk.len = 0
  · rw [hlen]
    exact confined_ret _
  · exact confined_programLoop chunk.data chunk.len.toNat (by rw [Nat.zero_add]; exact h hlen)

theorem confined_writeChunks {chunks : List Chunk} (h : ∀ chunk ∈ chunks, InBounds chunk) :
    Confined (writeChunks chunks) := by
  induction chunks with
  | nil => exact confined_ret _
  | cons chunk rest ih =>
      refine confined_bind (confined_commWriteNewAppData (h chunk List.mem_cons_self)) fun _ => ?_
      exact confined_bind (ih fun c hc => h c (List.mem_cons_of_mem chunk hc)) fun _ =>
        confined_ret _

theorem confined_upload (size : Word) {chunks : List Chunk}
    (h : ∀ chunk ∈ chunks, InBounds chunk) : Confined (upload size chunks) :=
  confined_bind (confined_commEraseNewApp size) fun _ =>
    confined_bind (confined_writeChunks h) fun _ => confined_ret _

end Confined

/-! ## Exactness -/

/-- The chunks cover exactly the bytes below `size`. -/
def Covers (size : Nat) (chunks : List Chunk) : Prop :=
  ∀ i, i < size ↔ ∃ chunk ∈ chunks, chunk.offset.toNat ≤ i ∧
    i < chunk.offset.toNat + chunk.len.toNat

/-- Every chunk carries its part of the image. -/
def Matches (image : Nat → Byte) (chunks : List Chunk) : Prop :=
  ∀ chunk ∈ chunks, ∀ j < chunk.len.toNat, chunk.data j = image (chunk.offset.toNat + j)

/-- Below `size` every byte is erased or already that of the image. -/
def Settled (size : Nat) (image : Nat → Byte) (flash : Memory) : Prop :=
  ∀ x < size, flash (0x08080000 + x) = 0xFF ∨ flash (0x08080000 + x) = image x

/-- Programming a byte of the image over an erased byte or over itself. -/
theorem settled_and {byte imageByte : Byte} (h : byte = 0xFF ∨ byte = imageByte) :
    byte &&& imageByte = imageByte := by
  rcases h with rfl | rfl
  · exact BitVec.allOnes_and
  · exact BitVec.and_self

/-- One byte of the image is programmed, and all others stay as they are. -/
theorem perform_programByte {size : Nat} {image : Nat → Byte} {offset : Word} {i : Nat}
    {data : Byte} {s : System} (hsize : size ≤ 0x60000) (hbound : offset.toNat + i < size)
    (hdata : data = image (offset.toNat + i)) (hsettled : Settled size image s.mem.flash)
    {x : Nat} (hx : x < size) :
    (device.perform (.programByte (newAppAddress offset i) data) s).mem.flash (0x08080000 + x) =
      if x = offset.toNat + i then image x else s.mem.flash (0x08080000 + x) := by
  change Memory.programByte s.mem.flash (newAppAddress offset i) data _ = _
  rw [newAppAddress_eq (by omega), Memory.programByte, hdata]
  by_cases heq : x = offset.toNat + i
  · rw [if_pos heq, if_pos (by omega), ← heq]
    exact settled_and (hsettled x hx)
  · rw [if_neg heq, if_neg (by omega)]

theorem run_programLoop {size : Nat} {image : Nat → Byte} {offset : Word} {data : Nat → Byte}
    (hsize : size ≤ 0x60000) (count : Nat) :
    ∀ {i : Nat} {s : System}, offset.toNat + (i + count) ≤ size →
      (∀ j, i ≤ j → j < i + count → data j = image (offset.toNat + j)) →
      Settled size image s.mem.flash →
      (device.run (programLoop offset data count i) s).1 = none ∧
        Settled size image (device.run (programLoop offset data count i) s).2.mem.flash ∧
        ∀ x < size, (s.mem.flash (0x08080000 + x) = image x ∨
            offset.toNat + i ≤ x ∧ x < offset.toNat + (i + count)) →
          (device.run (programLoop offset data count i) s).2.mem.flash (0x08080000 + x) =
            image x := by
  induction count with
  | zero =>
      intro i s _ _ hsettled
      exact ⟨rfl, hsettled, fun x _ hx => hx.resolve_right (by omega)⟩
  | succ count ih =>
      intro i s hbound hdata hsettled
      obtain ⟨s', hs'⟩ : ∃ s', s' =
          device.perform (.programByte (newAppAddress offset i) (data i)) s := ⟨_, rfl⟩
      have hflash : ∀ x < size, s'.mem.flash (0x08080000 + x) =
          if x = offset.toNat + i then image x else s.mem.flash (0x08080000 + x) := fun x hx =>
        hs' ▸ perform_programByte hsize (by omega) (hdata i (Nat.le_refl i) (by omega)) hsettled hx
      have hsettled' : Settled size image s'.mem.flash := by
        intro x hx
        rw [hflash x hx]
        split
        · exact Or.inr rfl
        · exact hsettled x hx
      obtain ⟨hnone, hfinal, hdone⟩ := ih (by omega : offset.toNat + (i + 1 + count) ≤ size)
        (fun j hj hj' => hdata j (by omega) (by omega)) hsettled'
      have hrun : device.run (programLoop offset data (count + 1) i) s =
          device.run (programLoop offset data count (i + 1)) s' := by
        rw [hs']
        rfl
      rw [hrun]
      refine ⟨hnone, hfinal, fun x hx h => hdone x hx ?_⟩
      rw [hflash x hx]
      by_cases heq : x = offset.toNat + i
      · rw [if_pos heq]
        exact Or.inl rfl
      · rw [if_neg heq]
        exact h.imp_right fun h => ⟨by omega, by omega⟩

theorem eraseSector_ones {flash : Memory} {address : Nat} (sector : Sector)
    (h : flash address = 0xFF) : flash.eraseSector sector address = 0xFF := by
  unfold Memory.eraseSector
  split
  · rfl
  · exact h

/-- The loop erases every sector that starts below the end of the image. -/
theorem run_eraseLoop (newAppSize : Word) (sectors : List Sector) :
    ∀ {s : System}, sectors.Pairwise (fun a b => flashAddrWord a ≤ flashAddrWord b) →
      (device.run (eraseLoop newAppSize sectors) s).1 = none ∧
        ∀ address, (s.mem.flash address = 0xFF ∨ ∃ sector ∈ sectors,
            newAppSize > flashAddrWord sector ∧ flashAddr sector ≤ address ∧
            address < sectorEnd sector) →
          (device.run (eraseLoop newAppSize sectors) s).2.mem.flash address = 0xFF := by
  induction sectors with
  | nil =>
      intro s _
      exact ⟨rfl, fun address h => h.resolve_right fun ⟨_, hmem, _⟩ => absurd hmem List.not_mem_nil⟩
  | cons sector rest ih =>
      intro s hsorted
      obtain ⟨hhead, htail⟩ := List.pairwise_cons.1 hsorted
      rw [eraseLoop]
      by_cases hgt : newAppSize > flashAddrWord sector
      · rw [if_pos hgt]
        obtain ⟨hnone, herased⟩ : (device.run (eraseLoop newAppSize rest)
            (device.perform (.eraseSector sector) s)).1 = none ∧ _ := ih htail
        refine ⟨hnone, fun address h => herased address ?_⟩
        rcases h with h | ⟨other, hmem, hother, hin⟩
        · exact Or.inl (eraseSector_ones sector h)
        · rcases List.mem_cons.1 hmem with rfl | hmem
          · exact Or.inl (if_pos hin)
          · exact Or.inr ⟨other, hmem, hother, hin⟩
      · rw [if_neg hgt]
        refine ⟨rfl, fun address h => h.resolve_right ?_⟩
        rintro ⟨other, hmem, hother, -⟩
        rcases List.mem_cons.1 hmem with rfl | hmem
        · exact hgt hother
        · have hle := hhead other hmem
          rw [BitVec.le_def] at hle
          rw [gt_iff_lt, BitVec.lt_def] at hother hgt
          omega

theorem run_guarded {loop : SysProgram (Option Status)} {s : System}
    (h : (device.run loop (entered s)).1 = none) :
    device.run (guarded loop) s = (.complete, left (device.run loop (entered s)).2) := by
  have hrun : device.run (guarded loop) s = device.run (loop.bind fun res =>
      match res with
      | some res => ret res
      | none => leave.bind fun _ => ret .complete) (entered s) := rfl
  rw [hrun, Device.run_bind, h]
  rfl

theorem flashAddrWord_toNat_le (sector : Sector) :
    (flashAddrWord sector).toNat ≤ flashAddr sector := by
  rw [flashAddrWord, BitVec.toNat_ofNat]
  exact Nat.mod_le _ _

theorem exists_newAppSector {x : Nat} (hx : x < 0x60000) :
    ∃ sector ∈ newAppSectors, flashAddr sector ≤ 0x08080000 + x ∧
      0x08080000 + x < sectorEnd sector := by
  rcases (by omega : x < 0x20000 ∨ 0x20000 ≤ x ∧ x < 0x40000 ∨ 0x40000 ≤ x) with h | h | h
  · refine ⟨8, by decide, ?_, ?_⟩
    · change 0x08080000 ≤ _
      omega
    · change _ < 0x080A0000
      omega
  · refine ⟨9, by decide, ?_, ?_⟩
    · change 0x080A0000 ≤ _
      omega
    · change _ < 0x080C0000
      omega
  · refine ⟨10, by decide, ?_, ?_⟩
    · change 0x080C0000 ≤ _
      omega
    · change _ < 0x080E0000
      omega

theorem newAppSectors_sorted :
    newAppSectors.Pairwise fun a b => flashAddrWord a ≤ flashAddrWord b := by decide

/-- The reply reports success when the loop runs to its end. -/
theorem run_reply {loop : SysProgram (Option Status)} {s : System}
    (h : (device.run loop (entered s)).1 = none) :
    device.run ((guarded loop).bind fun flashRes => ret (flashRes == .complete)) s =
      (true, left (device.run loop (entered s)).2) := by
  rw [Device.run_bind, run_guarded h, Device.run_ret, beq_self_eq_true]

/-- After an erase request every byte of the image is erased. -/
theorem run_commEraseNewApp {size : Word} (s : System) (hsize : size.toNat ≤ 0x60000) :
    (device.run (commEraseNewApp size) s).1 = true ∧
      ∀ x < size.toNat, (device.run (commEraseNewApp size) s).2.mem.flash (0x08080000 + x) =
        0xFF := by
  obtain ⟨hnone, herased⟩ : (device.run (eraseLoop (size + flashAddrWord newAppBase)
      newAppSectors) (entered s)).1 = none ∧ _ := run_eraseLoop _ _ newAppSectors_sorted
  rw [commEraseNewApp, flashHelperEraseNewApp, bind_eq]
  simp only [pure_eq, run_reply hnone, true_and]
  intro x hx
  rw [left_mem]
  have hbase : (flashAddrWord newAppBase).toNat = 0x08080000 := by decide
  obtain ⟨sector, hmem, hlow, hhigh⟩ := exists_newAppSector (by omega : x < 0x60000)
  refine herased _ (Or.inr ⟨sector, hmem, ?_, hlow, hhigh⟩)
  -- the sector starts at or below the byte, hence below the end of the image
  have hsector := flashAddrWord_toNat_le sector
  rw [gt_iff_lt, BitVec.lt_def, BitVec.toNat_add, hbase]
  omega

theorem run_commWriteNewAppData {size : Nat} {image : Nat → Byte} {chunk : Chunk} {s : System}
    (hsize : size ≤ 0x60000)
    (hbound : chunk.len ≠ 0 → chunk.offset.toNat + chunk.len.toNat ≤ size)
    (hdata : ∀ j < chunk.len.toNat, chunk.data j = image (chunk.offset.toNat + j))
    (hsettled : Settled size image s.mem.flash) :
    (device.run (commWriteNewAppData chunk) s).1 = true ∧
      Settled size image (device.run (commWriteNewAppData chunk) s).2.mem.flash ∧
      ∀ x < size, (s.mem.flash (0x08080000 + x) = image x ∨
          chunk.offset.toNat ≤ x ∧ x < chunk.offset.toNat + chunk.len.toNat) →
        (device.run (commWriteNewAppData chunk) s).2.mem.flash (0x08080000 + x) = image x := by
  rw [← entered_mem s] at hsettled ⊢
  obtain ⟨loop, hloop⟩ : ∃ loop, loop = programLoop chunk.offset chunk.data chunk.len.toNat 0 :=
    ⟨_, rfl⟩
  obtain ⟨hnone, hfinal, hdone⟩ : (device.run loop (entered s)).1 = none ∧
      Settled size image (device.run loop (entered s)).2.mem.flash ∧
      ∀ x < size, ((entered s).mem.flash (0x08080000 + x) = image x ∨
          chunk.offset.toNat + 0 ≤ x ∧ x < chunk.offset.toNat + (0 + chunk.len.toNat)) →
        (device.run loop (entered s)).2.mem.flash (0x08080000 + x) = image x := by
    rw [hloop]
    by_cases hlen : chunk.len = 0
    · rw [hlen]
      exact ⟨rfl, hsettled, fun x _ h => h.resolve_right fun ⟨_, hx⟩ => by simp at hx; omega⟩
    · have hle := hbound hlen
      exact run_programLoop hsize chunk.len.toNat (by omega) (fun j _ hj => hdata j (by omega))
        hsettled
  rw [commWriteNewAppData, flashHelperWriteNewAppData, bind_eq, ← hloop]
  simp only [pure_eq, run_reply hnone, true_and, left_mem]
  exact ⟨hfinal, fun x hx h => hdone x hx (h.imp_right fun h => ⟨by omega, by omega⟩)⟩

theorem run_writeChunks {size : Nat} {image : Nat → Byte} (hsize : size ≤ 0x60000)
    (chunks : List Chunk) :
    ∀ {s : System}, (∀ chunk ∈ chunks, chunk.len ≠ 0 →
        chunk.offset.toNat + chunk.len.toNat ≤ size) →
      Matches image chunks → Settled size image s.mem.flash →
      (device.run (writeChunks chunks) s).1 = List.replicate chunks.length true ∧
        ∀ x < size, (s.mem.flash (0x08080000 + x) = image x ∨ ∃ chunk ∈ chunks,
            chunk.offset.toNat ≤ x ∧ x < chunk.offset.toNat + chunk.len.toNat) →
          (device.run (writeChunks chunks) s).2.mem.flash (0x08080000 + x) = image x := by
  induction chunks with
  | nil =>
      intro s _ _ _
      exact ⟨rfl, fun x _ h => h.resolve_right fun ⟨_, hmem, _⟩ => absurd hmem List.not_mem_nil⟩
  | cons chunk rest ih =>
      intro s hbounds hmatches hsettled
      obtain ⟨hreply, hsettled', hdone⟩ := run_commWriteNewAppData hsize
        (hbounds chunk List.mem_cons_self) (hmatches chunk List.mem_cons_self) hsettled
      obtain ⟨hreplies, hrest⟩ := ih (fun c hc => hbounds c (List.mem_cons_of_mem chunk hc))
        (fun c hc => hmatches c (List.mem_cons_of_mem chunk hc)) hsettled'
      simp only [writeChunks, bind_eq, pure_eq, Device.run_bind, Device.run_ret, hreply, hreplies]
      refine ⟨rfl, fun x hx h => hrest x hx ?_⟩
      rcases h with h | ⟨c, hc, hin⟩
      · exact Or.inl (hdone x hx (Or.inl h))
      · rcases List.mem_cons.1 hc with rfl | hc
        · exact Or.inl (hdone x hx (Or.inr hin))
        · exact Or.inr ⟨c, hc, hin⟩

/-- Chunks inside the sectors cannot cover a larger image. -/
theorem Covers.size_le {size : Nat} {chunks : List Chunk} (h : Covers size chunks)
    (hbounds : ∀ chunk ∈ chunks, InBounds chunk) : size ≤ 0x60000 := by
  rcases Nat.eq_zero_or_pos size with rfl | hpos
  · exact Nat.zero_le _
  · obtain ⟨chunk, hmem, hlow, hhigh⟩ := (h (size - 1)).1 (by omega)
    have hlen : chunk.len ≠ 0 := by
      intro hzero
      rw [hzero] at hhigh
      simp at hhigh
      omega
    have hbound := hbounds chunk hmem hlen
    omega

theorem Covers.bound {size : Nat} {chunks : List Chunk} (h : Covers size chunks) {chunk : Chunk}
    (hmem : chunk ∈ chunks) (hlen : chunk.len ≠ 0) :
    chunk.offset.toNat + chunk.len.toNat ≤ size := by
  have hpos : 0 < chunk.len.toNat := by
    rcases Nat.eq_zero_or_pos chunk.len.toNat with hzero | hpos
    · exact absurd (BitVec.eq_of_toNat_eq hzero) hlen
    · exact hpos
  have hlast := (h (chunk.offset.toNat + chunk.len.toNat - 1)).2
    ⟨chunk, hmem, by omega, by omega⟩
  omega

/-- An upload whose chunks all lie in sectors 8 to 10 changes nothing else,
however the flash answers and wherever it is stopped; and when the chunks cover
the image, the flash ends up holding it. -/
theorem upload_confined_and_exact (s : System) (size : Word) (chunks : List Chunk)
    (hbounds : ∀ chunk ∈ chunks, InBounds chunk) :
    Confined (upload size chunks) ∧
      ∀ image, Covers size.toNat chunks → Matches image chunks →
        (device.run (upload size chunks) s).1 = List.replicate (chunks.length + 1) true ∧
          ∀ i < size.toNat,
            (device.run (upload size chunks) s).2.mem.flash (0x08080000 + i) = image i := by
  refine ⟨confined_upload size hbounds, fun image hcovers hmatches => ?_⟩
  have hsize := hcovers.size_le hbounds
  obtain ⟨hreply, herased⟩ := run_commEraseNewApp s hsize
  obtain ⟨hreplies, hwritten⟩ := run_writeChunks hsize chunks
    (fun chunk hmem hlen => hcovers.bound hmem hlen) hmatches fun x hx => Or.inl (herased x hx)
  simp only [upload, bind_eq, pure_eq, Device.run_bind, Device.run_ret, hreply, hreplies]
  exact ⟨rfl, fun i hi => hwritten i hi (Or.inr ((hcovers i).1 hi))⟩

/-- An image of two bytes in one chunk. -/
theorem upload_confined_and_exact_two :
    (device.run (upload 2 [⟨0, fun _ => 7, 2⟩]) (idle erasedMem)).2.mem.flash (0x08080000 + 1) =
      7 := by
  refine ((upload_confined_and_exact (idle erasedMem) 2 [⟨0, fun _ => 7, 2⟩] ?_).2
    (fun _ => 7) ?_ ?_).2 1 (by decide)
  · intro chunk hmem _
    rw [List.mem_singleton.1 hmem]
    decide
  · intro i
    simp
  · intro chunk hmem j _
    rw [List.mem_singleton.1 hmem]

/-- A chunk at offset 0x60000 programs the first byte of sector 11, where the
bootloader is. -/
theorem not_confined_upload_bootloader :
    ¬∀ address, ¬InNewApp address →
      (device.run (upload 0 [⟨0x60000, fun _ => 0, 1⟩]) (idle erasedMem)).2.mem.flash address =
        (idle erasedMem).mem.flash address := by
  intro h
  exact absurd (h 0x080E0000 (by decide)) (by decide)

end Bldc.Sys
