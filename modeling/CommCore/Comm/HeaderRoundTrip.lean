import CommCore.Comm.MessageHeader

/-!
# The round trip of a header

A sender sets the three fields and encodes them (`send`); a receiver copies the 32 bytes into its
own header and decodes them. What the receiver gets does not depend on what either header held, nor
on the byte order of the hosts (`decode_send`): the length, the version, and the part of the type
before its first NUL. The setter and the encoder let a NUL in the type through, so the type arrives
exactly if it has none (`roundTrip_iff`, `type_with_nul`).
-/

namespace CommCore

namespace MessageHeader

open Lib

/-- The sender: it sets the fields of its header and encodes it. -/
def send (e : Endian) (t : Str) (l : Word 4) (v : Word 2) : Exec Exn Header Unit := do
  setMessageType t
  setMessageLength l
  setMessageVersion v
  encodeHeader e

/-- If the sender (on `h`) does not throw, then the receiver (on `g`, with the 32 bytes copied into
it) decodes the three fields that were sent. -/
def RoundTrip (e e' : Endian) (t : Str) (l : Word 4) (v : Word 2) (h g : Header) : Prop :=
  ∀ h', (send e t l v).run h = .ok () h' → ∃ g',
    (decodeHeader e').run { g with data := h'.data } = .ok () g' ∧
      g'.messageType = t ∧ g'.messageLength = l ∧ g'.messageVersion = v

section Send

variable (e e' : Endian) {t : Str} (l : Word 4) (v : Word 2) (h g : Header)

/-- The sender throws, or its header holds the fields and their layout. -/
theorem send_run : (send e t l v).run h =
    if typeSize ≤ t.length then .error (.thrown typeTooLong) h
    else if t = [] then .error (.thrown typeEmpty) ⟨t, l, v, h.data⟩
    else .ok () ⟨t, l, v, layout h.data t l v⟩ := by
  unfold send
  by_cases ht : typeSize ≤ t.length
  · rw [if_pos ht, EStateM.run_bind, setMessageType_run, if_pos ht]
  · have hset := setMessageType_run t h
    rw [if_neg ht] at hset
    rw [if_neg ht, Exec.run_bind_ok hset]
    exact encodeHeader_run e (h := ⟨t, l, v, h.data⟩) (Nat.le_of_not_le ht)

/-- A type that the setter accepts and that is not empty is sent. -/
theorem send_ok (ht : t.length < typeSize) (hn : t ≠ []) :
    (send e t l v).run h = .ok () ⟨t, l, v, layout h.data t l v⟩ := by
  rw [send_run, if_neg (Nat.not_le.mpr ht), if_neg hn]

/-- A sender that does not throw has accepted the type. -/
theorem accepted_of_send {h' : Header} (hs : (send e t l v).run h = .ok () h') :
    t.length < typeSize ∧ t ≠ [] ∧ h' = ⟨t, l, v, layout h.data t l v⟩ := by
  rw [send_run] at hs
  by_cases ht : typeSize ≤ t.length
  · rw [if_pos ht] at hs; cases hs
  · rw [if_neg ht] at hs
    by_cases hn : t = []
    · rw [if_pos hn] at hs; cases hs
    · rw [if_neg hn] at hs
      cases hs
      exact ⟨Nat.lt_of_not_le ht, hn, rfl⟩

/-- The receiver gets the length, the version and what precedes the first NUL of the type. -/
theorem decode_send (d : Buf maxDataSize) (ht : t.length < typeSize) :
    (decodeHeader e').run { g with data := layout d t l v } =
      .ok () ⟨cstr t, l, v, layout d t l v⟩ := by
  have htype := typeField_layout d l v (Nat.le_of_lt ht)
  have hlen : (cstr t).length ≠ typeSize := by
    have := length_cstr_le t
    omega
  rw [decodeHeader_run]
  simp only [htype, cstr_append_zeros, lengthField_layout, versionField_layout, if_neg hlen]

end Send

/-- **The round trip holds exactly for the types without a NUL byte**, among those that the setter
accepts, for every length, version, prior content of both headers, and byte order. -/
theorem roundTrip_iff (e e' : Endian) (t : Str) (l : Word 4) (v : Word 2) (h g : Header) :
    RoundTrip e e' t l v h g ↔ (t.length < typeSize → 0 ∉ t) := by
  refine ⟨fun hrt ht => ?_, fun hnul h' hs => ?_⟩
  · by_cases hn : t = []
    · rw [hn]; exact List.not_mem_nil
    · obtain ⟨g', hd, hg, -, -⟩ := hrt _ (send_ok e l v h ht hn)
      rw [decode_send e' l v g h.data ht] at hd
      cases hd
      exact (cstr_eq_self_iff t).mp hg
  · obtain ⟨ht, -, rfl⟩ := accepted_of_send e l v h hs
    exact ⟨_, decode_send e' l v g h.data ht, (cstr_eq_self_iff t).mpr (hnul ht), rfl, rfl⟩

/-- The type `a`, NUL, `b` is accepted and encoded, and arrives as `a`. -/
theorem type_with_nul :
    ¬ RoundTrip .little .little [97, 0, 98] 5 1 { data := fun _ => 0 } { data := fun _ => 0 } := by
  intro hrt
  obtain ⟨g', hd, hg, -, -⟩ := hrt _ (send_ok .little 5 1 _ (by decide) (by decide))
  rw [decode_send .little 5 1 _ _ (by decide)] at hd
  cases hd
  exact absurd hg (by decide)

end MessageHeader

end CommCore
