import Bldc.Link.Rf

/-!
# The radio as a register file

The radio keeps the bits of its registers that are written, and nothing else changes them. In
the driver's use of it the registers are then a file of bytes, and each function of the driver
sets one of them.
-/

namespace Bldc.Link

open Flash Foundation

variable {τ : Type}

/-- A radio with its registers. -/
structure Nrf (τ : Type) extends RfChip τ where
  reg : τ → NrfReg → Nat → Byte
  /-- A register is read byte by byte, after the byte that comes back for the command. -/
  reg_read (state : τ) (r : NrfReg) (length : Nat) : r.kept → length ≤ r.size →
    (toRfChip.overBytes state (.frame (nrfCmdReadRegister ||| r.code) none length)).2.tail =
      (List.range length).map (reg state r)
  /-- The bits that are in use are written. -/
  reg_write (state : τ) (r : NrfReg) (data : List Byte) : r.kept → data.length ≤ r.size →
    ∀ i (hi : i < data.length),
      reg (toRfChip.overBytes state
          (.frame (nrfCmdWriteRegister ||| r.code) (some data) data.length)).1 r i &&& r.used =
        data[i] &&& r.used
  /-- The bytes above those that are written stay. -/
  reg_write_rest (state : τ) (r : NrfReg) (data : List Byte) : r.kept →
    ∀ i, data.length ≤ i →
      reg (toRfChip.overBytes state
          (.frame (nrfCmdWriteRegister ||| r.code) (some data) data.length)).1 r i = reg state r i
  /-- Nothing else changes a register. -/
  reg_keep (state : τ) (request : RfRequest) (r : NrfReg) : r.kept →
    (∀ outBuf length, request ≠ .frame (nrfCmdWriteRegister ||| r.code) outBuf length) →
      reg (toRfChip.overBytes state request).1 r = reg state r

/-- What the registers hold, in the bits that are in use. -/
abbrev View : Type := NrfReg → Nat → Byte

/-- These bytes of a register are set. -/
def View.set (v : View) (r : NrfReg) (data : List Byte) : View := fun r' i =>
  if r' = r ∧ i < data.length then data.getD i 0 &&& r.used else v r' i

theorem View.set_byte (v : View) (r : NrfReg) (data : Byte) (r' : NrfReg) (i : Nat) :
    v.set r [data] r' i = if r' = r ∧ i = 0 then data &&& r.used else v r' i := by
  unfold View.set
  rcases i with _ | i
  · simp
  · simp

namespace Nrf

variable (chip : Nrf τ)

/-- What the registers hold. -/
def view (state : τ) : View := fun r i => chip.reg state r i &&& r.used

/-- The registers that are kept hold this. -/
def Shows (state : τ) (v : View) : Prop :=
  ∀ r, r.kept → ∀ i, chip.reg state r i &&& r.used = v r i

variable {chip}

/-- The value of a session, and the radio after it. -/
abbrev run {α : Type} (chip : Nrf τ) (session : Rf α) (state : τ) : α × τ :=
  Session.run chip.toRfChip.overBytes session state

/-! ## Requests -/

theorem size_pos (r : NrfReg) : 1 ≤ r.size := by
  cases r <;> simp [NrfReg.size]

theorem write_injective {r r' : NrfReg}
    (h : nrfCmdWriteRegister ||| r.code = nrfCmdWriteRegister ||| r'.code) : r = r' := by
  cases r <;> cases r' <;> first
    | rfl
    | exact absurd h (by decide)
    | (rename_i pipe pipe'; revert pipe pipe'; decide)
    | (rename_i pipe; revert pipe; decide)

theorem write_high (r : NrfReg) : (nrfCmdWriteRegister ||| r.code) &&& 0xE0 = 0x20 := by
  cases r with
  | rxAddr pipe => revert pipe; decide
  | _ => decide

theorem read_high (r : NrfReg) : (nrfCmdReadRegister ||| r.code) &&& 0xE0 ≠ 0x20 := by
  cases r with
  | rxAddr pipe => revert pipe; decide
  | _ => decide

/-- The request writes to no register that keeps it. -/
def Passive (request : RfRequest) : Prop :=
  ∀ r : NrfReg, r.kept → ∀ outBuf length,
    request ≠ .frame (nrfCmdWriteRegister ||| r.code) outBuf length

theorem passive_frame {cmd : Byte} (hcmd : cmd &&& 0xE0 ≠ 0x20) (outBuf : Option (List Byte))
    (length : Nat) : Passive (.frame cmd outBuf length) := by
  intro r _ outBuf' length' heq
  obtain ⟨rfl, -, -⟩ := RfRequest.frame.inj heq
  exact hcmd (write_high r)

theorem Shows.keep {state : τ} {v : View} (h : chip.Shows state v) {request : RfRequest}
    (hrequest : Passive request) :
    chip.Shows (chip.toRfChip.overBytes state request).1 v := by
  intro r hr i
  rw [chip.reg_keep state request r hr (hrequest r hr)]
  exact h r hr i

theorem Shows.write {state : τ} {v : View} (h : chip.Shows state v) {r : NrfReg} (hr : r.kept)
    (data : List Byte) (hdata : data.length ≤ r.size) :
    chip.Shows (chip.run (rfWriteReg r data) state).2 (v.set r data) := by
  intro r' hr' i
  unfold View.set
  by_cases hsame : r' = r
  · subst hsame
    by_cases hi : i < data.length
    · rw [if_pos ⟨rfl, hi⟩]
      rw [List.getD_eq_getElem?_getD, List.getElem?_eq_getElem hi]
      exact chip.reg_write state r' data hr hdata i hi
    · rw [if_neg fun hboth => hi hboth.2, ← h r' hr i]
      have hrest := chip.reg_write_rest state r' data hr i (not_lt.1 hi)
      exact congrArg (· &&& r'.used) hrest
  · rw [if_neg fun hboth => hsame hboth.1]
    have hkeep := chip.reg_keep state (.frame (nrfCmdWriteRegister ||| r.code) (some data)
      data.length) r' hr' fun outBuf length heq =>
        hsame (write_injective (RfRequest.frame.inj heq).1).symm
    rw [← h r' hr' i, ← hkeep]
    rfl

theorem Shows.writeByte {state : τ} {v : View} (h : chip.Shows state v) {r : NrfReg}
    (hr : r.kept) (data : Byte) :
    chip.Shows (chip.run (rfWriteRegByte r data) state).2 (v.set r [data]) :=
   h.write hr [data] (size_pos r)

/-! ## Reading -/

theorem run_readReg (state : τ) {r : NrfReg} (hr : r.kept) {length : Nat}
    (hlength : length ≤ r.size) :
    (chip.run (rfReadReg r length) state).1 = (List.range length).map (chip.reg state r) :=
  chip.reg_read state r length hr hlength

theorem Shows.readReg {state : τ} {v : View} (h : chip.Shows state v) (r : NrfReg)
    (length : Nat) : chip.Shows (chip.run (rfReadReg r length) state).2 v :=
  h.keep (passive_frame (read_high r) none length)

theorem run_readRegByte (state : τ) {r : NrfReg} (hr : r.kept) :
    (chip.run (rfReadRegByte r) state).1 = chip.reg state r 0 := by
  have hread : (chip.run (rfReadReg r 1) state).1 = [chip.reg state r 0] :=
    run_readReg state hr (size_pos r)
  unfold rfReadRegByte
  simp only [run, Session.bind_eq, Session.run_bind, Session.pure_eq, Session.run_ret] at hread ⊢
  rw [hread]
  rfl

theorem Shows.readRegByte {state : τ} {v : View} (h : chip.Shows state v) (r : NrfReg) :
    chip.Shows (chip.run (rfReadRegByte r) state).2 v := by
  unfold rfReadRegByte
  simp only [run, Session.bind_eq, Session.run_bind, Session.pure_eq, Session.run_ret]
  exact h.readReg r 1

/-! ## Changes -/

theorem masked_change (x mask bits used : Byte) :
    (x &&& ~~~mask ||| bits) &&& used = ((x &&& used) &&& ~~~mask ||| bits) &&& used := by
  ext i hi
  simp only [BitVec.getElem_and, BitVec.getElem_or, BitVec.getElem_not]
  cases x[i] <;> cases used[i] <;> simp

/-- A byte of a register is read and, if need be, changed. -/
theorem Shows.change {state : τ} {v : View} (h : chip.Shows state v) {r : NrfReg} (hr : r.kept)
    {test : Byte → Prop} [DecidablePred test] {write g : Byte → Byte}
    (hwrite : ∀ x, test x → write x &&& r.used = g (x &&& r.used) &&& r.used)
    (hleave : ∀ x, ¬test x → x &&& r.used = g (x &&& r.used) &&& r.used) :
    chip.Shows
      (chip.run (do
        let x ← rfReadRegByte r
        if test x then rfWriteRegByte r (write x)) state).2
      (v.set r [g (v r 0)]) := by
  have hread : (chip.run (rfReadRegByte r) state).1 = chip.reg state r 0 := run_readRegByte state hr
  have hshows := h.readRegByte r
  have hbyte : v r 0 = chip.reg state r 0 &&& r.used := (h r hr 0).symm
  simp only [run, Session.bind_eq, Session.run_bind] at hread hshows ⊢
  rw [hread, hbyte]
  split
  next htest =>
    have hset := Shows.writeByte hshows hr (write (chip.reg state r 0))
    have hviews : v.set r [write (chip.reg state r 0)] =
        v.set r [g (chip.reg state r 0 &&& r.used)] := by
      funext r' i
      rw [View.set_byte, View.set_byte, hwrite _ htest]
    rw [← hviews]
    exact hset
  next htest =>
    intro r' hr' i
    refine (hshows r' hr' i).trans ?_
    rw [View.set_byte]
    split
    next hboth =>
      rw [hboth.1, hboth.2, hbyte]
      exact hleave _ htest
    next => rfl

theorem Shows.update {state : τ} {v : View} (h : chip.Shows state v) {r : NrfReg} (hr : r.kept)
    (mask bits : Byte) :
    chip.Shows (chip.run (rfUpdate r fun x => x &&& ~~~mask ||| bits) state).2
      (v.set r [v r 0 &&& ~~~mask ||| bits]) := by
  apply h.change hr (g := fun x => x &&& ~~~mask ||| bits)
  · exact fun x _ => masked_change x mask bits r.used
  · intro x hx
    have hsame : x = x &&& ~~~mask ||| bits := not_not.1 hx
    have hmasked := masked_change x mask bits r.used
    rw [← hsame] at hmasked
    exact hmasked

end Nrf

/-! ## Registers alone -/

/-- A radio that is nothing but its registers, with the command of the frame and the number of
bytes since. -/
structure Registers where
  cmd : Option Byte
  count : Nat
  mem : Byte → Nat → Byte

namespace Registers

/-- One byte of a register. -/
def store (s : Registers) (reg : Byte) (word : Byte) : Byte → Nat → Byte := fun r i =>
  if r = reg ∧ i = s.count then word else s.mem r i

def chip : RfChip Registers where
  select s := { s with cmd := none, count := 0 }
  deselect s := s
  reply s := match s.cmd with
    | none => 0
    | some cmd => s.mem (cmd &&& 0x1F) s.count
  next s word := match s.cmd with
    | none => { s with cmd := some word }
    | some cmd =>
        { s with
          count := s.count + 1
          mem := if cmd &&& 0xE0 = nrfCmdWriteRegister then s.store (cmd &&& 0x1F) word else s.mem }
  wait s := s

theorem next_write {cmd : Byte} (hcmd : cmd &&& 0xE0 = nrfCmdWriteRegister) (count : Nat)
    (mem : Byte → Nat → Byte) (word : Byte) :
    chip.next ⟨some cmd, count, mem⟩ word =
      ⟨some cmd, count + 1, store ⟨some cmd, count, mem⟩ (cmd &&& 0x1F) word⟩ := by
  unfold chip
  dsimp only
  rw [if_pos hcmd]

theorem next_other {cmd : Byte} (hcmd : cmd &&& 0xE0 ≠ nrfCmdWriteRegister) (count : Nat)
    (mem : Byte → Nat → Byte) (word : Byte) :
    chip.next ⟨some cmd, count, mem⟩ word = ⟨some cmd, count + 1, mem⟩ := by
  unfold chip
  dsimp only
  rw [if_neg hcmd]

theorem exchange_write {cmd : Byte} (hcmd : cmd &&& 0xE0 = nrfCmdWriteRegister) (count : Nat)
    (mem : Byte → Nat → Byte) (words : List Byte) (r : Byte) (i : Nat) :
    (chip.exchange ⟨some cmd, count, mem⟩ words).1.mem r i =
      if r = cmd &&& 0x1F ∧ count ≤ i ∧ i < count + words.length
        then words.getD (i - count) 0 else mem r i := by
  induction words generalizing count mem with
  | nil =>
      rw [if_neg fun h => absurd h.2.2 (not_lt.2 h.2.1)]
      rfl
  | cons word words ih =>
      rw [WordDevice.exchange_cons, next_write hcmd, List.length_cons]
      refine (ih (count + 1) _).trans ?_
      unfold store
      dsimp only
      rcases Nat.lt_trichotomy i count with hlt | rfl | hlt
      · rw [if_neg (by omega), if_neg (by omega), if_neg (by omega)]
      · rw [if_neg (by omega), Nat.sub_self]
        exact if_congr (by simp) rfl rfl
      · obtain ⟨j, rfl⟩ := Nat.exists_eq_add_of_lt hlt
        have hfirst : count + j + 1 - (count + 1) = j := by omega
        have hsecond : count + j + 1 - count = j + 1 := by omega
        rw [if_neg (show ¬(r = cmd &&& 0x1F ∧ count + j + 1 = count) by omega), hfirst, hsecond,
          List.getD_cons_succ]
        have hlength : count + 1 + words.length = count + (words.length + 1) := by omega
        rw [hlength]
        exact if_congr (and_congr_right fun _ => and_congr_left fun _ => by omega) rfl rfl

theorem exchange_other {cmd : Byte} (hcmd : cmd &&& 0xE0 ≠ nrfCmdWriteRegister) (count : Nat)
    (mem : Byte → Nat → Byte) (words : List Byte) :
    (chip.exchange ⟨some cmd, count, mem⟩ words).1.mem = mem ∧
      (chip.exchange ⟨some cmd, count, mem⟩ words).2 =
        (List.range words.length).map fun i => mem (cmd &&& 0x1F) (count + i) := by
  induction words generalizing count with
  | nil => exact ⟨rfl, rfl⟩
  | cons word words ih =>
      rw [WordDevice.exchange_cons, next_other hcmd, List.length_cons, List.range_succ_eq_map]
      refine ⟨(ih (count + 1)).1, ?_⟩
      rw [(ih (count + 1)).2]
      simp [chip, Function.comp_def, Nat.add_right_comm, Nat.add_assoc]

/-- The registers after a frame. -/
theorem frame_mem (s : Registers) (cmd : Byte) (outBuf : Option (List Byte)) (length : Nat)
    (r : Byte) (i : Nat) :
    (chip.overBytes s (.frame cmd outBuf length)).1.mem r i =
      if (cmd &&& 0xE0 = nrfCmdWriteRegister ∧ r = cmd &&& 0x1F) ∧ i < length
        then (sentBytes outBuf length).getD i 0 else s.mem r i := by
  have hlength : (sentBytes outBuf length).length = length := by simp [sentBytes]
  by_cases hcmd : cmd &&& 0xE0 = nrfCmdWriteRegister
  · refine (exchange_write hcmd 0 s.mem (sentBytes outBuf length) r i).trans ?_
    rw [Nat.sub_zero, Nat.zero_add, hlength]
    refine if_congr ⟨fun h => ⟨⟨hcmd, h.1⟩, h.2.2⟩, fun h => ⟨h.1.2, i.zero_le, h.2⟩⟩ rfl rfl
  · rw [if_neg fun h => hcmd h.1.1]
    exact congrFun (congrFun (exchange_other hcmd 0 s.mem (sentBytes outBuf length)).1 r) i

theorem code_and (r : NrfReg) : (nrfCmdReadRegister ||| r.code) &&& 0x1F = r.code ∧
    (nrfCmdWriteRegister ||| r.code) &&& 0x1F = r.code := by
  cases r with
  | rxAddr pipe => revert pipe; decide
  | _ => decide

theorem write_of_and {cmd : Byte} {r : NrfReg}
    (h : cmd &&& 0xE0 = nrfCmdWriteRegister ∧ r.code = cmd &&& 0x1F) :
    cmd = nrfCmdWriteRegister ||| r.code := by
  rw [h.2, ← h.1]
  generalize cmd = x
  revert x
  decide +kernel

theorem code_injective {r r' : NrfReg} (h : r.code = r'.code) : r = r' :=
  Nrf.write_injective (congrArg (nrfCmdWriteRegister ||| ·) h)

/-- The registers alone are such a radio. -/
def nrf : Nrf Registers where
  toRfChip := chip
  reg s r := s.mem r.code
  reg_read s r length _ _ := by
    have hreplies := (exchange_other (Nrf.read_high r) 0 s.mem (sentBytes none length)).2
    have hlength : (sentBytes none length).length = length := by simp [sentBytes]
    rw [hlength, (code_and r).1] at hreplies
    refine hreplies.trans ?_
    simp
  reg_write s r data _ _ i hi := by
    rw [frame_mem, if_pos ⟨⟨Nrf.write_high r, (code_and r).2.symm⟩, hi⟩, sentBytes_some]
    rw [List.getD_eq_getElem?_getD, List.getElem?_eq_getElem hi]
    rfl
  reg_write_rest s r data _ i hi := by
    rw [frame_mem, if_neg fun h => absurd h.2 (not_lt.2 hi)]
  reg_keep s request r _ hrequest := by
    funext i
    cases request with
    | command cmd => rfl
    | frame cmd outBuf length =>
        rw [frame_mem, if_neg fun h => ?_]
        exact hrequest outBuf length (by rw [write_of_and h.1])
    | sleep => rfl

end Registers

end Bldc.Link
