import Bldc.Flash.Memory

/-!
# EEPROM emulation

Variables are 16 bits wide and named by 16-bit virtual addresses. Two flash
sectors serve as pages. A page starts with a status halfword; every further word
is a slot holding a value and, above it, the virtual address it belongs to. A
write appends a slot to the active page, and a full page is compacted into the
other one.
-/

namespace Bldc.Eeprom

open Foundation Foundation.Program Flash

/-- The memory the emulation works on: the flash, the table of virtual
addresses and the global that receives values read. -/
structure Mem where
  flash : Memory
  virtAddVarTab : List Half
  dataVar : Half

/-- The writing functions return a flash status, `PAGE_FULL` or `NO_VALID_PAGE`
in one `uint16_t`. -/
inductive EeStatus where
  | flash (status : Status)
  | pageFull
  | noValidPage
  deriving DecidableEq, Repr

abbrev EeStatus.complete : EeStatus := .flash .complete

/-- Result of a read: 0, 1 or `NO_VALID_PAGE`. -/
inductive ReadStatus where
  | found
  | notFound
  | noValidPage
  deriving DecidableEq, Repr

abbrev EeProgram := Program Mem Op Status

/-- The flash as the device below every EEPROM program. -/
def device : Device Mem Op Status where
  perform op mem := { mem with flash := perform op mem.flash }
  success := .complete

/-! ## Layout -/

def pageSize : Nat := 0x4000
def eepromStartAddress : Nat := 0x08004000

inductive Page where
  | page0
  | page1
  deriving DecidableEq, Repr

def Page.other : Page → Page
  | .page0 => .page1
  | .page1 => .page0

/-- `PAGE0_BASE_ADDRESS` and `PAGE1_BASE_ADDRESS`. -/
def Page.base : Page → Nat
  | .page0 => eepromStartAddress
  | .page1 => eepromStartAddress + pageSize

/-- `PAGE0_ID` and `PAGE1_ID`. -/
def Page.id : Page → Sector
  | .page0 => 1
  | .page1 => 2

def erased : Half := 0xFFFF
def receiveData : Half := 0xEEEE
def validPage : Half := 0x0000

def pageStatus (flash : Memory) (page : Page) : Half := flash.half page.base

inductive Operation where
  | readFromValidPage
  | writeInValidPage
  deriving DecidableEq, Repr

/-- `EE_FindValidPage`; `none` is `NO_VALID_PAGE`. -/
def eeFindValidPage (flash : Memory) : Operation → Option Page
  | .writeInValidPage =>
      if pageStatus flash .page1 = validPage then
        if pageStatus flash .page0 = receiveData then some .page0 else some .page1
      else if pageStatus flash .page0 = validPage then
        if pageStatus flash .page1 = receiveData then some .page1 else some .page0
      else none
  | .readFromValidPage =>
      if pageStatus flash .page0 = validPage then some .page0
      else if pageStatus flash .page1 = validPage then some .page1
      else none

/-! ## Reading -/

/-- The loop of `EE_ReadVariable` with `count` slots left to visit; the slot
visited is the last of them. -/
def readLoop (flash : Memory) (pageStartAddress : Nat) (virtAddress : Half) :
    (count : Nat) → Option Half
  | 0 => none
  | count + 1 =>
      let address := pageStartAddress + 2 + 4 * (count + 1)
      if flash.half address = virtAddress then some (flash.half (address - 2))
      else readLoop flash pageStartAddress virtAddress count

/-- `EE_ReadVariable`. The second component is what `*Data` holds afterwards. -/
def eeReadVariable (flash : Memory) (virtAddress data : Half) : ReadStatus × Half :=
  match eeFindValidPage flash .readFromValidPage with
  | none => (.noValidPage, data)
  | some page =>
      match readLoop flash page.base virtAddress (pageSize / 4 - 1) with
      | some value => (.found, value)
      | none => (.notFound, data)

/-! ## Writing -/

/-- The loop of `EE_VerifyPageFullWriteVariable`: the first blank word among the
next `count` ones. -/
def writeLoop (flash : Memory) : (count : Nat) → (address : Nat) → Option Nat
  | 0, _ => none
  | count + 1, address =>
      if flash.word address = 0xFFFFFFFF then some address
      else writeLoop flash count (address + 4)

/-- `EE_VerifyPageFullWriteVariable`. -/
def eeVerifyPageFullWriteVariable (virtAddress data : Half) : EeProgram EeStatus := do
  let mem ← read
  match eeFindValidPage mem.flash .writeInValidPage with
  | none => pure .noValidPage
  | some page =>
      match writeLoop mem.flash (pageSize / 4) page.base with
      | none => pure .pageFull
      | some address => do
          let status ← attempt (.programHalfWord address data)
          if status ≠ .complete then pure (.flash status)
          else do
            let status ← attempt (.programHalfWord (address + 2) virtAddress)
            pure (.flash status)

/-- The loop of `EE_EraseSectorIfNotEmpty`: whether the next `count` bytes are
all erased. -/
def emptyLoop (flash : Memory) : (count : Nat) → (address : Nat) → Bool
  | 0, _ => true
  | count + 1, address =>
      if flash address ≠ 0xFF then false else emptyLoop flash count (address + 1)

/-- `EE_EraseSectorIfNotEmpty`. -/
def eeEraseSectorIfNotEmpty (sector : Sector) : EeProgram Status := do
  let mem ← read
  if emptyLoop mem.flash pageSize (getSectorAddress sector) then pure .complete
  else attempt (.eraseSector sector)

/-- Read a variable into `DataVar` and, unless it was not found, append it to
the page being written: the body of the three transfer loops. -/
def transferVariable (virtAddress : Half) : EeProgram EeStatus := do
  let mem ← read
  let (readStatus, value) := eeReadVariable mem.flash virtAddress mem.dataVar
  modify fun mem => { mem with dataVar := value }
  if readStatus ≠ .notFound then eeVerifyPageFullWriteVariable virtAddress value
  else pure .complete

/-- The transfer loop of `EE_PageTransfer`: all variables but the one passed. -/
def transferLoop (virtAddress : Half) : List Half → EeProgram EeStatus
  | [] => pure .complete
  | variableAddress :: rest =>
      if variableAddress ≠ virtAddress then do
        let status ← transferVariable variableAddress
        if status ≠ .complete then pure status else transferLoop virtAddress rest
      else transferLoop virtAddress rest

/-- `EE_PageTransfer`. -/
def eePageTransfer (virtAddress data : Half) : EeProgram EeStatus := do
  let mem ← read
  match eeFindValidPage mem.flash .readFromValidPage with
  | none => pure .noValidPage
  | some oldPage => do
      let status ← attempt (.programHalfWord oldPage.other.base receiveData)
      if status ≠ .complete then pure (.flash status)
      else do
        let eepromStatus ← eeVerifyPageFullWriteVariable virtAddress data
        if eepromStatus ≠ .complete then pure eepromStatus
        else do
          let eepromStatus ← transferLoop virtAddress mem.virtAddVarTab
          if eepromStatus ≠ .complete then pure eepromStatus
          else do
            let status ← eeEraseSectorIfNotEmpty oldPage.id
            if status ≠ .complete then pure (.flash status)
            else do
              let status ← attempt (.programHalfWord oldPage.other.base validPage)
              pure (.flash status)

/-- `EE_WriteVariable`. -/
def eeWriteVariable (virtAddress data : Half) : EeProgram EeStatus := do
  let status ← eeVerifyPageFullWriteVariable virtAddress data
  if status = .pageFull then eePageTransfer virtAddress data else pure status

/-! ## Recovery -/

/-- `EE_Format`. -/
def eeFormat : EeProgram Status := do
  let status ← eeEraseSectorIfNotEmpty Page.page0.id
  if status ≠ .complete then pure status
  else do
    let status ← attempt (.programHalfWord Page.page0.base validPage)
    if status ≠ .complete then pure status
    else eeEraseSectorIfNotEmpty Page.page1.id

/-- The transfer loop of `EE_Init` into page `receiver`. The variable whose
address is in the first slot of the receiver was the parameter of the
interrupted transfer, or has been copied before; `x` remembers its index. -/
def initLoop (receiver : Page) : List Half → (varIdx : Nat) → (x : Int) → EeProgram EeStatus
  | [], _, _ => pure .complete
  | variableAddress :: rest, varIdx, x => do
      let mem ← read
      let x := if mem.flash.half (receiver.base + 6) = variableAddress then (varIdx : Int) else x
      if (varIdx : Int) ≠ x then do
        let status ← transferVariable variableAddress
        if status ≠ .complete then pure status else initLoop receiver rest (varIdx + 1) x
      else initLoop receiver rest (varIdx + 1) x

/-- One page valid and `receiver` receiving: redo the transfer, mark the
receiver valid, then erase the other page. -/
def initTransfer (receiver : Page) : EeProgram EeStatus := do
  let mem ← read
  let eepromStatus ← initLoop receiver mem.virtAddVarTab 0 (-1)
  if eepromStatus ≠ .complete then pure eepromStatus
  else do
    let status ← attempt (.programHalfWord receiver.base validPage)
    if status ≠ .complete then pure (.flash status)
    else do
      let status ← eeEraseSectorIfNotEmpty receiver.other.id
      pure (.flash status)

/-- One page erased and `receiver` receiving: make sure that the other page is
erased, then mark the receiver valid. -/
def initFinish (receiver : Page) : EeProgram EeStatus := do
  let status ← eeEraseSectorIfNotEmpty receiver.other.id
  if status ≠ .complete then pure (.flash status)
  else do
    let status ← attempt (.programHalfWord receiver.base validPage)
    pure (.flash status)

/-- One page valid, the other erased: make sure that `page` is erased. -/
def initErase (page : Page) : EeProgram EeStatus := do
  let status ← eeEraseSectorIfNotEmpty page.id
  pure (.flash status)

def initFormat : EeProgram EeStatus := do
  let status ← eeFormat
  pure (.flash status)

/-- The switch of `EE_Init` on the two page headers. -/
def initSwitch (pageStatus0 pageStatus1 : Half) : EeProgram EeStatus :=
  if pageStatus0 = erased then
    if pageStatus1 = validPage then initErase .page0
    else if pageStatus1 = receiveData then initFinish .page1
    else initFormat
  else if pageStatus0 = receiveData then
    if pageStatus1 = validPage then initTransfer .page0
    else if pageStatus1 = erased then initFinish .page0
    else initFormat
  else if pageStatus0 = validPage then
    if pageStatus1 = validPage then initFormat
    else if pageStatus1 = erased then initErase .page1
    else initTransfer .page1
  else initFormat

/-- `EE_Init`. -/
def eeInit : EeProgram EeStatus := do
  let mem ← read
  initSwitch (pageStatus mem.flash .page0) (pageStatus mem.flash .page1)

end Bldc.Eeprom
