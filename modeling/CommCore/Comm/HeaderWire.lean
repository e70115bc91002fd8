import CommCore.Comm.HeaderRoundTrip

/-!
# The 32 bytes of a header

- **Layout** (`WireLayout`). What each byte of `data_` is after `encode_header`: a digit of the
  length or of the version to the base 256, most significant first, a byte of the type, or zero.
  It depends on the three fields only (`WireLayout.unique`), neither on what `data_` held before
  nor on the host (`send_layout`).
- **Terminator** (`FirstNul`). The index of the first NUL of the type field: the decoder accepts
  a buffer exactly if there is one (`decodeHeader_ok_iff`).
-/

namespace CommCore

namespace MessageHeader

open Lib

/-- The bytes of a header with the type `t`, the length `l` and the version `v`. -/
structure WireLayout (d : Buf maxDataSize) (t : Str) (l : Word 4) (v : Word 2) : Prop where
  length : ∀ i, i.val < 4 → (d i).val = l.val / 256 ^ (3 - i.val) % 256
  version : ∀ i, 4 ≤ i.val → i.val < 6 → (d i).val = v.val / 256 ^ (5 - i.val) % 256
  type : ∀ i, 6 ≤ i.val → ∀ h : i.val - 6 < t.length, d i = t[i.val - 6]
  zero : ∀ i, 6 + t.length ≤ i.val → d i = 0

/-- The layout leaves no byte open. -/
theorem WireLayout.unique {d d' : Buf maxDataSize} {t : Str} {l : Word 4} {v : Word 2}
    (h : WireLayout d t l v) (h' : WireLayout d' t l v) : d = d' := by
  funext i
  by_cases h4 : i.val < 4
  · exact Fin.ext ((h.length i h4).trans (h'.length i h4).symm)
  by_cases h6 : i.val < 6
  · have hge : 4 ≤ i.val := by omega
    exact Fin.ext ((h.version i hge h6).trans (h'.version i hge h6).symm)
  have hge : 6 ≤ i.val := by omega
  by_cases ht : i.val - 6 < t.length
  · exact (h.type i hge ht).trans (h'.type i hge ht).symm
  · have hz : 6 + t.length ≤ i.val := by omega
    exact (h.zero i hz).trans (h'.zero i hz).symm

theorem length_typeField (d : Buf maxDataSize) : (typeField d).length = typeSize :=
  List.length_ofFn

/-- A byte of the type field. -/
theorem typeField_at (d : Buf maxDataSize) {i : Fin maxDataSize} {j : Nat}
    (h : i.val = typeOffset + j) : (typeField d)[j]? = some (d i) := by
  have hj : j < typeSize := by
    have hi : i.val < typeOffset + typeSize := i.isLt
    omega
  have he : (⟨typeOffset + j, h ▸ i.isLt⟩ : Fin maxDataSize) = i := Fin.ext h.symm
  unfold typeField
  rw [List.getElem?_ofFn, dif_pos hj]
  exact congrArg (fun i => some (d i)) he

/-- **What the encoder writes.** -/
theorem layout_wire (d : Buf maxDataSize) {t : Str} (l : Word 4) (v : Word 2)
    (ht : t.length ≤ typeSize) : WireLayout (layout d t l v) t l v where
  length i hi := by
    have he : 4 - (i.val + 1) = 3 - i.val := by omega
    rw [at_of_block (length_block_layout d t l v) i ⟨i.val, hi⟩ (Nat.zero_add _).symm, Word.be_val,
      he]
  version i hi hi' := by
    have hv : i.val = versionOffset + (i.val - 4) := (Nat.add_sub_cancel' hi).symm
    have he : 2 - (i.val - 4 + 1) = 5 - i.val := by omega
    rw [at_of_block (version_block_layout d t l v) i ⟨i.val - 4, by omega⟩ hv, Word.be_val, he]
  type i hi hj := by
    have h := typeField_at (layout d t l v) (Nat.add_sub_cancel' hi).symm
    rw [typeField_layout d l v ht, List.getElem?_append_left hj, List.getElem?_eq_getElem hj] at h
    exact (Option.some.inj h).symm
  zero i hi := by
    have hi' : 6 ≤ i.val := by omega
    have h := typeField_at (layout d t l v) (Nat.add_sub_cancel' hi').symm
    have hj : t.length ≤ i.val - 6 := by omega
    rw [typeField_layout d l v ht, List.getElem?_append_right hj] at h
    exact List.eq_of_mem_replicate (List.mem_of_getElem? h)

/-- **The wire layout does not depend on the host nor on the history.** A sender with a type that
the setter accepts and that is not empty writes the bytes of `WireLayout`, whatever its header
held, and a receiver of any byte order reads the length and the version from them. -/
theorem send_layout (e e' : Endian) {t : Str} (l : Word 4) (v : Word 2) (h g : Header)
    (ht : t.length < typeSize) (hn : t ≠ []) : ∃ h', (send e t l v).run h = .ok () h' ∧
      WireLayout h'.data t l v ∧
      ∃ g', (decodeHeader e').run { g with data := h'.data } = .ok () g' ∧
        g'.messageLength = l ∧ g'.messageVersion = v :=
  ⟨_, send_ok e l v h ht hn, layout_wire h.data l v (Nat.le_of_lt ht), _,
    decode_send e' l v g h.data ht, rfl, rfl⟩

/-- A longer type was sent before, and the two hosts differ. -/
theorem send_layout_again : ∃ h', (send .little [97] 258 1).run
      { data := layout (fun _ => 255) [98, 99, 100] 7 7 } = .ok () h' ∧
    WireLayout h'.data [97] 258 1 ∧
    ∃ g', (decodeHeader .big).run { data := h'.data } = .ok () g' ∧
      g'.messageLength = 258 ∧ g'.messageVersion = 1 :=
  send_layout .little .big 258 1 _ { data := fun _ => 0 } (by decide) (by decide)

/-! ## The terminator -/

/-- Byte `n` is the first NUL of the type field. -/
structure FirstNul (d : Buf maxDataSize) (n : Fin maxDataSize) : Prop where
  inType : typeOffset ≤ n.val
  nul : d n = 0
  first : ∀ i : Fin maxDataSize, typeOffset ≤ i.val → i < n → d i ≠ 0

/-- The decoder's search for the NUL finds the first one. -/
theorem firstNul_iff {d : Buf maxDataSize} {n : Fin maxDataSize} :
    FirstNul d n ↔ n.val = typeOffset + (cstr (typeField d)).length := by
  have hn : n.val < typeOffset + typeSize := n.isLt
  constructor
  · rintro ⟨hle, hnul, hfirst⟩
    obtain ⟨m, hm⟩ := Nat.exists_eq_add_of_le hle
    have hlt : m < (typeField d).length := by rw [length_typeField]; omega
    have hlen : (cstr (typeField d)).length = m := by
      refine (length_cstr_eq_iff hlt).mpr ⟨by rw [typeField_at d hm, hnul], fun j hj => ?_⟩
      have hi : typeOffset + j < n.val := by omega
      rw [typeField_at d (i := ⟨typeOffset + j, Nat.lt_trans hi n.isLt⟩) rfl]
      intro h0
      exact hfirst _ (Nat.le_add_right _ j) hi (Option.some.inj h0)
    rw [hlen, hm]
  · intro h
    have hlt : (cstr (typeField d)).length < (typeField d).length := by
      rw [length_typeField]; omega
    obtain ⟨hnul, hfirst⟩ := (length_cstr_eq_iff hlt).mp rfl
    rw [typeField_at d h] at hnul
    refine ⟨h ▸ Nat.le_add_right _ _, Option.some.inj hnul, fun i hi hin h0 => ?_⟩
    obtain ⟨j, hj⟩ := Nat.exists_eq_add_of_le hi
    have hlt : j < (cstr (typeField d)).length := by
      have hin' : i.val < n.val := hin
      omega
    refine hfirst j hlt ?_
    rw [typeField_at d hj, h0]

/-- The search ends inside the type field exactly if there is a NUL. -/
theorem exists_firstNul_iff {d : Buf maxDataSize} :
    (∃ n, FirstNul d n) ↔ (cstr (typeField d)).length ≠ typeSize := by
  have hle : (cstr (typeField d)).length ≤ typeSize := length_typeField d ▸ length_cstr_le _
  simp only [firstNul_iff]
  constructor
  · rintro ⟨n, hn⟩ he
    have hlt : n.val < typeOffset + typeSize := n.isLt
    omega
  · intro hne
    have hlt : typeOffset + (cstr (typeField d)).length < typeOffset + typeSize := by omega
    exact ⟨⟨_, hlt⟩, rfl⟩

/-- The decoder accepts a buffer exactly if its type field has a NUL. -/
theorem decodeHeader_ok_iff {e : Endian} {h h' : Header} :
    (decodeHeader e).run h = .ok () h' ↔ (∃ n, FirstNul h.data n) ∧
      h' = ⟨cstr (typeField h.data), lengthField h.data, versionField h.data, h.data⟩ := by
  rw [decodeHeader_run, exists_firstNul_iff]
  by_cases he : (cstr (typeField h.data)).length = typeSize
  · simp [he]
  · simp [he, eq_comm]

end MessageHeader

end CommCore
