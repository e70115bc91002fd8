import CommCore.Lib.Bytes
import CommCore.Lib.Exec

/-!
# `message_header` (`libs/comm/{include/comm,src}/messages/message_header.{hpp,cpp}`)

The header of a message and its 32 bytes on the wire: the length (4 bytes) and the version
(2 bytes), most significant byte first, then the type, NUL-terminated in 26 bytes.

- **Encoder** (`encodeHeader`): it copies the type by its size, behind zeros (`encodeHeader_run`,
  `layout`).
- **Decoder** (`decodeHeader`): it reads the type up to the first NUL (`decodeHeader_run`). It has
  stored the length and the version before it looks for the NUL.

Every access to `data_` is checked: one that leaves the 32 bytes is undefined (`store`, `load`).
The host's byte order is a parameter.
-/

namespace CommCore

namespace MessageHeader

open Lib

def maxDataSize : Nat := 32

def lengthOffset : Nat := 0

/-- `length_offset_ + sizeof(uint32_t)`. -/
def versionOffset : Nat := lengthOffset + 4

/-- `version_offset_ + sizeof(uint16_t)`. -/
def typeOffset : Nat := versionOffset + 2

def typeSize : Nat := maxDataSize - typeOffset

/-- What a member function throws. -/
inductive Exn where
  | logicError (what : Str)
  | runtimeError (what : Str)
  deriving DecidableEq, Repr

/-- `message_type` with a type that does not fit. -/
def typeTooLong : Exn := .logicError (lit "message_type: 文字列幅が最大サイズを超えています")

/-- `encode_header` without a type. -/
def typeEmpty : Exn := .logicError (lit "encode_header: message_type_ が空です")

/-- `decode_header` without a NUL in the type. -/
def noTerminator : Exn :=
  .runtimeError (lit "decode_header: data_ に NUL 終端が見つかりません（データが不正です）")

/-- The members. A default-constructed header leaves `data_` uninitialised. -/
structure Header where
  messageType : Str := []
  messageLength : Word 4 := 0
  messageVersion : Word 2 := 1
  data : Buf maxDataSize

/-! ## The member functions -/

/-- `memcpy` to `data_.data() + o`. -/
def store {k : Nat} (o : Nat) (b : Buf k) : Exec Exn Header Unit := do
  let a ← Exec.need ((← get).data.copyIn o b)
  modify fun h => { h with data := a }

/-- `memcpy` of `k` bytes from `data_.data() + o`. -/
def load (o k : Nat) : Exec Exn Header (Buf k) := do
  Exec.need ((← get).data.copyOut o k)

/-- `message_type(t)`. -/
def setMessageType (t : Str) : Exec Exn Header Unit := do
  Exec.throwIf (typeSize ≤ t.length) typeTooLong
  modify fun h => { h with messageType := t }

/-- `message_length(l)`. -/
def setMessageLength (l : Word 4) : Exec Exn Header Unit :=
  modify fun h => { h with messageLength := l }

/-- `message_version(v)`. -/
def setMessageVersion (v : Word 2) : Exec Exn Header Unit :=
  modify fun h => { h with messageVersion := v }

def encodeHeader (e : Endian) : Exec Exn Header Unit := do
  let h ← get
  Exec.throwIf (h.messageType = []) typeEmpty
  store lengthOffset (e.bytes (e.bigOfNative h.messageLength))
  store versionOffset (e.bytes (e.bigOfNative h.messageVersion))
  store typeOffset (fun _ => 0 : Buf typeSize)
  store typeOffset h.messageType.buf

def decodeHeader (e : Endian) : Exec Exn Header Unit := do
  let len ← load lengthOffset 4
  modify fun h => { h with messageLength := e.bigOfNative (e.word len) }
  let ver ← load versionOffset 2
  modify fun h => { h with messageVersion := e.bigOfNative (e.word ver) }
  let src ← load typeOffset typeSize
  -- `std::find` stops at the first NUL, or at the end of the field
  let t := cstr (List.ofFn src)
  Exec.throwIf (t.length = typeSize) noTerminator
  modify fun h => { h with messageType := t }

/-! ## The fields of `data_` -/

/-- The length that `data_` holds. -/
def lengthField (d : Buf maxDataSize) : Word 4 := Word.ofBE (d.block lengthOffset 4 (by decide))

/-- The version that `data_` holds. -/
def versionField (d : Buf maxDataSize) : Word 2 := Word.ofBE (d.block versionOffset 2 (by decide))

/-- The bytes of the type in `data_`. -/
def typeField (d : Buf maxDataSize) : Str := List.ofFn (d.block typeOffset typeSize (by decide))

/-- `data_` after `encode_header` with the type `t`, the length `l` and the version `v`. -/
def layout (d : Buf maxDataSize) (t : Str) (l : Word 4) (v : Word 2) : Buf maxDataSize :=
  (((d.put lengthOffset l.be).put versionOffset v.be).put typeOffset
    (fun _ => 0 : Buf typeSize)).put typeOffset t.buf

section Fields

variable (d : Buf maxDataSize) (t : Str) (l : Word 4) (v : Word 2)

theorem length_block_layout :
    (layout d t l v).block lengthOffset 4 (by decide) = l.be := by
  unfold layout
  rw [block_put_disjoint _ _ _ (.inr (by decide)), block_put_disjoint _ _ _ (.inr (by decide)),
    block_put_disjoint _ _ _ (.inr (by decide)), block_put]

theorem version_block_layout :
    (layout d t l v).block versionOffset 2 (by decide) = v.be := by
  unfold layout
  rw [block_put_disjoint _ _ _ (.inr (by decide)), block_put_disjoint _ _ _ (.inr (by decide)),
    block_put]

theorem lengthField_layout : lengthField (layout d t l v) = l := by
  rw [lengthField, length_block_layout, Word.ofBE_be]

theorem versionField_layout : versionField (layout d t l v) = v := by
  rw [versionField, version_block_layout, Word.ofBE_be]

variable {t} in
/-- The type, and zeros to the end of its field. -/
theorem typeField_layout (ht : t.length ≤ typeSize) :
    typeField (layout d t l v) = t ++ List.replicate (typeSize - t.length) 0 := by
  unfold typeField layout
  rw [block_put_put _ _ _ _ (Nat.le_refl _), Nat.sub_self]
  exact ofFn_put_zeros t ht

end Fields

/-! ## Runs -/

variable (e : Endian) {h : Header}

theorem setMessageType_run (t : Str) (h : Header) : (setMessageType t).run h =
    if typeSize ≤ t.length then .error (.thrown typeTooLong) h
    else .ok () { h with messageType := t } :=
  Exec.run_throwIf_bind _ _ h

theorem store_run {k o : Nat} (b : Buf k) (h : Header) (hk : o + k ≤ maxDataSize) :
    (store o b).run h = .ok () { h with data := h.data.put o b } := by
  simp [store, copyIn_eq hk]

/-- A write that leaves `data_` is undefined. -/
theorem store_out {k o : Nat} (b : Buf k) (h : Header) (hk : maxDataSize < o + k) :
    (store o b).run h = .error .undefined h := by
  have hnone : h.data.copyIn o b = none := if_neg (Nat.not_le.mpr hk)
  unfold store
  rw [Exec.run_bind_ok (EStateM.run_get h), hnone]
  rfl

theorem load_run {k o : Nat} (h : Header) (hk : o + k ≤ maxDataSize) :
    (load o k).run h = .ok (h.data.block o k hk) h := by
  simp [load, copyOut_eq hk]

/-- `encode_header` stays in `data_` if the type fits its field. -/
theorem encodeHeader_run (hs : h.messageType.length ≤ typeSize) : (encodeHeader e).run h =
    if h.messageType = [] then .error (.thrown typeEmpty) h
    else .ok () { h with
      data := layout h.data h.messageType h.messageLength h.messageVersion } := by
  have ho : typeOffset + h.messageType.length ≤ maxDataSize := Nat.add_le_add_left hs typeOffset
  unfold encodeHeader
  rw [Exec.run_bind_ok (EStateM.run_get h), Exec.run_throwIf_bind,
    Exec.run_bind_ok (store_run _ h (by decide)), Exec.run_bind_ok (store_run _ _ (by decide)),
    Exec.run_bind_ok (store_run _ _ (by decide)), store_run _ _ ho, bytes_bigOfNative,
    bytes_bigOfNative]
  rfl

/-- A type that fits and is not empty is encoded. -/
theorem encodeHeader_ok (hs : h.messageType.length ≤ typeSize) (hn : h.messageType ≠ []) :
    (encodeHeader e).run h = .ok () { h with
      data := layout h.data h.messageType h.messageLength h.messageVersion } := by
  rw [encodeHeader_run e hs, if_neg hn]

/-- The empty type is refused. -/
theorem encodeHeader_empty (hn : h.messageType = []) :
    (encodeHeader e).run h = .error (.thrown typeEmpty) h := by
  rw [encodeHeader_run e (by rw [hn]; exact Nat.zero_le _), if_pos hn]

/-- A type that does not fit leaves `data_`: the last write is undefined. -/
theorem encodeHeader_out (hs : typeSize < h.messageType.length) :
    ∃ h', (encodeHeader e).run h = .error .undefined h' := by
  have ho : maxDataSize < typeOffset + h.messageType.length := Nat.add_lt_add_left hs typeOffset
  have hn : h.messageType ≠ [] := List.ne_nil_of_length_pos (Nat.zero_lt_of_lt hs)
  unfold encodeHeader
  rw [Exec.run_bind_ok (EStateM.run_get h), Exec.run_throwIf_bind, if_neg hn,
    Exec.run_bind_ok (store_run _ h (by decide)), Exec.run_bind_ok (store_run _ _ (by decide)),
    Exec.run_bind_ok (store_run _ _ (by decide)), store_out _ _ ho]
  exact ⟨_, rfl⟩

variable (h) in
/-- The encoder refuses the empty type, writes one that fits, and leaves `data_` with another. -/
theorem encodeHeader_cases :
    (h.messageType = [] ∧ (encodeHeader e).run h = .error (.thrown typeEmpty) h) ∨
    (h.messageType ≠ [] ∧ h.messageType.length ≤ typeSize ∧ (encodeHeader e).run h = .ok () { h with
      data := layout h.data h.messageType h.messageLength h.messageVersion }) ∨
    (typeSize < h.messageType.length ∧ ∃ h', (encodeHeader e).run h = .error .undefined h') := by
  by_cases hn : h.messageType = []
  · exact .inl ⟨hn, encodeHeader_empty e hn⟩
  by_cases hs : h.messageType.length ≤ typeSize
  · exact .inr (.inl ⟨hn, hs, encodeHeader_ok e hs hn⟩)
  · have hlt : typeSize < h.messageType.length := by omega
    exact .inr (.inr ⟨hlt, encodeHeader_out e hlt⟩)

/-- `decode_header` stays in `data_`, and has stored the length and the version when it throws. -/
theorem decodeHeader_run (h : Header) : (decodeHeader e).run h =
    let h' := { h with
      messageLength := lengthField h.data, messageVersion := versionField h.data }
    if (cstr (typeField h.data)).length = typeSize then .error (.thrown noTerminator) h'
    else .ok () { h' with messageType := cstr (typeField h.data) } := by
  unfold decodeHeader
  rw [Exec.run_bind_ok (load_run h (by decide)), Exec.run_bind_ok (EStateM.run_modify _ _),
    Exec.run_bind_ok (load_run _ (by decide)), Exec.run_bind_ok (EStateM.run_modify _ _),
    Exec.run_bind_ok (load_run _ (by decide)), bigOfNative_word, bigOfNative_word]
  exact Exec.run_throwIf_bind _ _ _

end MessageHeader

end CommCore
