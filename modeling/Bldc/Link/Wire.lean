import Bldc.Link.Buffer

/-!
# Records on the wire

A record travels as the sequence of its fields. A field knows how it is encoded
and how it is read from and put into the record; a table of fields is a codec.
-/

namespace Bldc.Link

open Flash

/-- How one field of a record `σ` is transmitted. A 16-bit number is kept in a
32-bit field. -/
inductive WireField (σ : Type) where
  | byte (get : σ → Byte) (set : Byte → σ → σ)
  | flag (get : σ → Bool) (set : Bool → σ → σ)
  | float (scale : Rat) (get : σ → Rat) (set : Rat → σ → σ)
  | int32 (get : σ → Int) (set : Int → σ → σ)
  | uint32 (get : σ → Word) (set : Word → σ → σ)
  | uint16 (get : σ → Word) (set : Word → σ → σ)
  | bytes (n : Nat) (get : σ → Fin n → Byte) (set : (Fin n → Byte) → σ → σ)

namespace WireField

variable {σ : Type}

def size : WireField σ → Nat
  | byte _ _ | flag _ _ => 1
  | float _ _ _ | int32 _ _ | uint32 _ _ => 4
  | uint16 _ _ => 2
  | bytes n _ _ => n

/-- Read the field at `index` into the record. -/
def read (buffer : Buffer) (index : Nat) : WireField σ → σ → σ
  | byte _ set => set (buffer index)
  | flag _ set => set (buffer index != 0)
  | float scale _ set => set (bufferGetFloat32 buffer scale index)
  | int32 _ set => set (bufferGetInt32 buffer index)
  | uint32 _ set => set (bufferGetUint32 buffer index)
  | uint16 _ set => set ((bufferGetUint16 buffer index).setWidth 32)
  | bytes _ _ set => set fun i => buffer (index + i)

/-- The bytes of the field. -/
def write (record : σ) : WireField σ → List Byte
  | byte get _ => [get record]
  | flag get _ => [if get record then 1 else 0]
  | float scale get _ => bufferAppendFloat32 (get record) scale
  | int32 get _ => bufferAppendInt32 (get record)
  | uint32 get _ => bufferAppendUint32 (get record)
  | uint16 get _ => bufferAppendUint16 ((get record).setWidth 16)
  | bytes _ get _ => List.ofFn (get record)

/-- Read a table of fields from `index` on. -/
def decode (buffer : Buffer) : (index : Nat) → List (WireField σ) → σ → σ
  | _, [], record => record
  | index, field :: fields, record =>
      decode buffer (index + field.size) fields (field.read buffer index record)

def encode (record : σ) (fields : List (WireField σ)) : List Byte := fields.flatMap (write record)

def totalSize (fields : List (WireField σ)) : Nat := (fields.map size).sum

/-- A field depends on its own bytes. -/
theorem read_congr {n : Nat} {buffer buffer' : Buffer} (h : Agree n buffer buffer')
    {field : WireField σ} {index : Nat} (hn : index + field.size ≤ n) (record : σ) :
    field.read buffer index record = field.read buffer' index record := by
  cases field with
  | byte get set => exact congrArg (set · record) (h index hn)
  | flag get set => exact congrArg (fun byte => set (byte != 0) record) (h index hn)
  | float scale get set => exact congrArg (set · record) (bufferGetFloat32_congr scale h hn)
  | int32 get set => exact congrArg (set · record) (bufferGetInt32_congr h hn)
  | uint32 get set => exact congrArg (set · record) (bufferGetUint32_congr h hn)
  | uint16 get set =>
      exact congrArg (fun half => set (half.setWidth 32) record) (bufferGetUint16_congr h hn)
  | bytes n get set =>
      refine congrArg (set · record) (funext fun i => h _ ?_)
      simp only [size] at hn
      omega

/-- A record depends on the bytes of its table. -/
theorem decode_congr {n : Nat} {buffer buffer' : Buffer} (h : Agree n buffer buffer')
    (fields : List (WireField σ)) :
    ∀ (index : Nat) (record : σ), index + totalSize fields ≤ n →
      decode buffer index fields record = decode buffer' index fields record := by
  induction fields with
  | nil => exact fun _ _ _ => rfl
  | cons field fields ih =>
      intro index record hn
      rw [totalSize, List.map_cons, List.sum_cons] at hn
      rw [decode, decode, read_congr h (by omega)]
      exact ih _ _ (by rw [totalSize]; omega)

/-- The index behind the last field that `decode` has read. -/
def decodeEnd : (index : Nat) → List (WireField σ) → Nat
  | index, [] => index
  | index, field :: fields => decodeEnd (index + field.size) fields

/-- The field fits its place on the wire. -/
def Fits (record : σ) : WireField σ → Prop
  | float scale get _ => InInt32 (truncate (get record * scale))
  | int32 get _ => InInt32 (get record)
  | uint16 get _ => (get record).toNat < 65536
  | _ => True

/-- Put the field of `record` into another record, as it arrives there: a real
number is truncated to its scale. -/
def transfer (record : σ) : WireField σ → σ → σ
  | byte get set => set (get record)
  | flag get set => set (get record)
  | float scale get set => set (toScale scale (get record))
  | int32 get set => set (get record)
  | uint32 get set => set (get record)
  | uint16 get set => set (get record)
  | bytes _ get set => set (get record)

@[simp] theorem write_length (record : σ) (field : WireField σ) :
    (field.write record).length = field.size := by
  cases field <;> simp [write, size, bufferAppendFloat32, bufferAppendInt32, bufferAppendUint32,
    bufferAppendUint16]

theorem encode_cons (record : σ) (field : WireField σ) (fields : List (WireField σ)) :
    encode record (field :: fields) = field.write record ++ encode record fields := rfl

theorem decodeEnd_eq (index : Nat) (record : σ) (fields : List (WireField σ)) :
    decodeEnd index fields = index + (encode record fields).length := by
  induction fields generalizing index with
  | nil => rfl
  | cons field fields ih =>
      rw [decodeEnd, ih, encode_cons, List.length_append, write_length, Nat.add_assoc]

private theorem eq_of_holds_ofFn {n : Nat} {buffer : Buffer} {index : Nat} {f : Fin n → Byte}
    (h : Holds buffer index (List.ofFn f)) : (fun i : Fin n => buffer (index + i)) = f := by
  funext i
  have hlen : (List.ofFn f).length = n := List.length_ofFn
  rw [Holds, hlen] at h
  have hget := congrArg (·[i.1]?) h
  simpa [bytesOf] using hget

/-- A field is read as it was written. -/
theorem read_eq_transfer {buffer : Buffer} {index : Nat} {record : σ} {field : WireField σ}
    (h : Holds buffer index (field.write record)) (hfits : field.Fits record) (target : σ) :
    field.read buffer index target = field.transfer record target := by
  cases field with
  | byte get set => exact congrArg (set · target) (holds_cons.1 h).1
  | flag get set =>
      refine congrArg (set · target) ?_
      rw [(holds_cons.1 h).1]
      cases get record <;> rfl
  | float scale get set => exact congrArg (set · target) (bufferGetFloat32_of_holds h hfits)
  | int32 get set => exact congrArg (set · target) (bufferGetInt32_of_holds h hfits)
  | uint32 get set => exact congrArg (set · target) (bufferGetUint32_of_holds h)
  | uint16 get set =>
      refine congrArg (set · target) ?_
      rw [bufferGetUint16_of_holds h]
      apply BitVec.eq_of_toNat_eq
      have hlt : (get record).toNat < 65536 := hfits
      simp only [BitVec.toNat_setWidth]
      omega
  | bytes n get set => exact congrArg (set · target) (eq_of_holds_ofFn h)

/-- A record that was encoded arrives field by field. -/
theorem decode_eq_transfer {buffer : Buffer} {record : σ} (fields : List (WireField σ))
    (hfits : ∀ field ∈ fields, field.Fits record) :
    ∀ (index : Nat) (target : σ), Holds buffer index (encode record fields) →
      decode buffer index fields target =
        fields.foldl (fun target field => field.transfer record target) target := by
  induction fields with
  | nil => exact fun _ _ _ => rfl
  | cons field fields ih =>
      intro index target h
      rw [encode_cons, holds_append, write_length] at h
      rw [decode, read_eq_transfer h.1 (hfits field (List.mem_cons_self ..)), List.foldl_cons]
      apply ih
      · intro f hf
        exact hfits f (List.mem_cons_of_mem _ hf)
      · exact h.2

end WireField

end Bldc.Link
