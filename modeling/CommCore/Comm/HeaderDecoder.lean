import CommCore.Comm.HeaderWire

/-!
# Decoding and encoding again

The encoder makes of a decoded header the **canonical** buffer of its fields: what was received up
to the terminator, and zeros after it (`canonical_agrees`, `canonical_zeros`). Decoding the
canonical buffer gives the same fields, and encoding them gives the same buffer. So two buffers
decode to the same fields exactly if they agree up to the terminator
(`decode_encode_normalises`): the decoder ignores what follows it, and nothing else.
-/

namespace CommCore

namespace MessageHeader

open Lib

/-- The two headers have the same type, length and version. -/
structure SameFields (h g : Header) : Prop where
  messageType : g.messageType = h.messageType
  messageLength : g.messageLength = h.messageLength
  messageVersion : g.messageVersion = h.messageVersion

/-- The buffers agree up to and including the byte `n`. -/
def AgreeTo (n : Fin maxDataSize) (d d' : Buf maxDataSize) : Prop := ∀ i ≤ n, d' i = d i

/-- What the encoder makes of the fields that the decoder reads in `d`. -/
def canonical (d : Buf maxDataSize) : Buf maxDataSize :=
  layout d (cstr (typeField d)) (lengthField d) (versionField d)

/-- A header that has decoded the buffer `d`. -/
def decoded (d : Buf maxDataSize) : Header :=
  ⟨cstr (typeField d), lengthField d, versionField d, d⟩

section Canonical

variable {d d' : Buf maxDataSize} {n : Fin maxDataSize}

theorem FirstNul.length_type (hn : FirstNul d n) :
    n.val = 6 + (cstr (typeField d)).length ∧ (cstr (typeField d)).length < typeSize := by
  have h := firstNul_iff.mp hn
  have hlt : n.val < typeOffset + typeSize := n.isLt
  exact ⟨h, by omega⟩

theorem FirstNul.unique {m : Fin maxDataSize} (hn : FirstNul d n) (hm : FirstNul d m) : n = m :=
  Fin.ext ((firstNul_iff.mp hn).trans (firstNul_iff.mp hm).symm)

/-- Agreement up to the terminator carries it over. -/
theorem FirstNul.of_agree (hn : FirstNul d n) (h : AgreeTo n d d') : FirstNul d' n where
  inType := hn.inType
  nul := (h n (Fin.le_refl n)).trans hn.nul
  first i hi hin := by
    rw [h i (Fin.le_of_lt hin)]
    exact hn.first i hi hin

theorem canonical_wire (hn : FirstNul d n) :
    WireLayout (canonical d) (cstr (typeField d)) (lengthField d) (versionField d) :=
  layout_wire d _ _ (Nat.le_of_lt hn.length_type.2)

/-- The canonical buffer has what was received up to the terminator. -/
theorem canonical_agrees (hn : FirstNul d n) : AgreeTo n d (canonical d) := by
  intro i hi
  have hin : i.val ≤ n.val := hi
  obtain ⟨hval, -⟩ := hn.length_type
  by_cases h4 : i.val < 4
  · -- the length
    have hb := length_block_layout d (cstr (typeField d)) (lengthField d) (versionField d)
    rw [lengthField, Word.be_ofBE] at hb
    have hi0 : i.val = lengthOffset + i.val := (Nat.zero_add _).symm
    exact (at_of_block hb i ⟨i.val, h4⟩ hi0).trans (at_of_block rfl i ⟨i.val, h4⟩ hi0).symm
  by_cases h6 : i.val < 6
  · -- the version
    have hb := version_block_layout d (cstr (typeField d)) (lengthField d) (versionField d)
    rw [versionField, Word.be_ofBE] at hb
    have hj : i.val - 4 < 2 := by omega
    have hi4 : i.val = versionOffset + (i.val - 4) := by show i.val = 4 + (i.val - 4); omega
    exact (at_of_block hb i ⟨_, hj⟩ hi4).trans (at_of_block rfl i ⟨_, hj⟩ hi4).symm
  have hge : 6 ≤ i.val := by omega
  by_cases hlt : i.val < n.val
  · -- the type
    have hj : i.val - 6 < (cstr (typeField d)).length := by omega
    rw [(canonical_wire hn).type i hge hj]
    have hat := typeField_at d (Nat.add_sub_cancel' hge).symm
    have hpre : cstr (typeField d) <+: typeField d := List.takeWhile_prefix _
    rw [List.getElem?_eq_getElem (Nat.lt_of_lt_of_le hj hpre.length_le)] at hat
    rw [hpre.getElem hj]
    exact Option.some.inj hat
  · have hin : i = n := Fin.ext (by omega)
    rw [hin, hn.nul]
    exact (canonical_wire hn).zero n (by omega)

/-- The canonical buffer is zero after the terminator. -/
theorem canonical_zeros (hn : FirstNul d n) {i : Fin maxDataSize} (hi : n < i) :
    canonical d i = 0 := by
  have hlt : n.val < i.val := hi
  refine (canonical_wire hn).zero i ?_
  rw [← hn.length_type.1]
  omega

theorem canonical_eq_self_iff (hn : FirstNul d n) : canonical d = d ↔ ∀ i, n < i → d i = 0 := by
  constructor
  · intro h i hi
    rw [← h]
    exact canonical_zeros hn hi
  · intro h
    funext i
    by_cases hi : i ≤ n
    · exact canonical_agrees hn i hi
    · have hlt : n < i := not_le.mp hi
      rw [canonical_zeros hn hlt, h i hlt]

/-- Buffers that agree up to the terminator have one canonical buffer. -/
theorem canonical_eq_of_agree (hn : FirstNul d n) (h : AgreeTo n d d') :
    canonical d = canonical d' := by
  have hn' := hn.of_agree h
  funext i
  by_cases hi : i ≤ n
  · rw [canonical_agrees hn i hi, canonical_agrees hn' i hi, h i hi]
  · have hlt : n < i := not_le.mp hi
    rw [canonical_zeros hn hlt, canonical_zeros hn' hlt]

/-- The canonical buffer decodes to the same fields. -/
theorem decode_canonical (hn : FirstNul d n) (e : Endian) (g : Header) :
    (decodeHeader e).run { g with data := canonical d } =
      .ok () { decoded d with data := canonical d } := by
  have h := decode_send e (lengthField d) (versionField d) g d hn.length_type.2
  rw [cstr_cstr] at h
  exact h

end Canonical

theorem decodeHeader_decoded {e : Endian} {h h' : Header}
    (hd : (decodeHeader e).run h = .ok () h') : (∃ n, FirstNul h.data n) ∧ h' = decoded h.data :=
  decodeHeader_ok_iff.mp hd

/-- Two buffers decode to the same fields exactly if they agree up to the terminator. -/
theorem sameFields_decoded_iff {d d' : Buf maxDataSize} {n n' : Fin maxDataSize}
    (hn : FirstNul d n) (hn' : FirstNul d' n') :
    SameFields (decoded d) (decoded d') ↔ AgreeTo n d d' := by
  constructor
  · rintro ⟨ht, hl, hv⟩
    have hlen : n = n' := by
      refine Fin.ext ?_
      rw [hn.length_type.1, hn'.length_type.1]
      exact congrArg (fun t => 6 + List.length t) ht.symm
    subst hlen
    have hw := canonical_wire hn'
    have ht' : cstr (typeField d') = cstr (typeField d) := ht
    have hl' : lengthField d' = lengthField d := hl
    have hv' : versionField d' = versionField d := hv
    rw [ht', hl', hv'] at hw
    have hc : canonical d' = canonical d := hw.unique (canonical_wire hn)
    intro i hi
    rw [← canonical_agrees hn i hi, ← canonical_agrees hn' i hi, hc]
  · intro h
    -- both are what the one canonical buffer decodes to
    have hd := decode_canonical hn .big (decoded d)
    have hd' := decode_canonical hn' .big (decoded d)
    rw [canonical_eq_of_agree hn h] at hd
    rw [hd] at hd'
    have he : { decoded d with data := canonical d' } = { decoded d' with data := canonical d' } :=
      (EStateM.Result.ok.inj hd').2
    simp only [decoded, Header.mk.injEq] at he
    exact ⟨he.1.symm, he.2.1.symm, he.2.2.1.symm⟩

/-- The encoder makes the canonical buffer of a decoded header, whatever its `data_` holds. -/
theorem encodeHeader_decoded (e : Endian) {d : Buf maxDataSize} {n : Fin maxDataSize}
    (hn : FirstNul d n) (ht : cstr (typeField d) ≠ []) (d' : Buf maxDataSize) :
    (encodeHeader e).run { decoded d with data := d' } =
      .ok () { decoded d with data := canonical d } := by
  have hlt := Nat.le_of_lt hn.length_type.2
  have hrun := encodeHeader_ok e (h := ⟨cstr (typeField d), lengthField d, versionField d, d'⟩)
    hlt ht
  have he : layout d' (cstr (typeField d)) (lengthField d) (versionField d) = canonical d :=
    (layout_wire d' _ _ hlt).unique (canonical_wire hn)
  rw [← he]
  exact hrun

/-- What encoding makes of the header `h`, which has decoded the buffer `d`: the buffer `d'`. -/
structure Normalises (e : Endian) (d : Buf maxDataSize) (h : Header) (d' : Buf maxDataSize) :
    Prop where
  encodes : (encodeHeader e).run h = .ok () { h with data := d' }
  agrees : ∀ n, FirstNul d n → AgreeTo n d d'
  zeros : ∀ n, FirstNul d n → ∀ i, n < i → d' i = 0
  decodes : ∀ (e' : Endian) (g : Header),
    ∃ g', (decodeHeader e').run { g with data := d' } = .ok () g' ∧ SameFields h g'
  again : (encodeHeader e).run { h with data := d' } = .ok () { h with data := d' }
  fixed : d' = d ↔ ∃ n, FirstNul d n ∧ ∀ i, n < i → d i = 0

/-- **Decoding and encoding normalise a buffer.** A header that has decoded a buffer, with a type,
encodes it as what was received up to the terminator and zeros after it; and two accepted buffers
decode to the same fields exactly if they agree up to and including the terminator. -/
theorem decode_encode_normalises {e : Endian} {h h₁ : Header}
    (hd : (decodeHeader e).run h = .ok () h₁) :
    (h₁.messageType ≠ [] → ∃ d', Normalises e h.data h₁ d') ∧
      ∀ e' g g₁, (decodeHeader e').run g = .ok () g₁ →
        (SameFields h₁ g₁ ↔ ∃ n, FirstNul h.data n ∧ AgreeTo n h.data g.data) := by
  obtain ⟨⟨n, hn⟩, rfl⟩ := decodeHeader_decoded hd
  refine ⟨fun ht => ⟨canonical h.data, ?_⟩, fun e' g g₁ hg => ?_⟩
  · exact {
      encodes := encodeHeader_decoded e hn ht h.data
      agrees := fun m hm => canonical_agrees hm
      zeros := fun m hm i hi => canonical_zeros hm hi
      decodes := fun e' g => ⟨_, decode_canonical hn e' g, rfl, rfl, rfl⟩
      again := encodeHeader_decoded e hn ht _
      fixed := by
        rw [canonical_eq_self_iff hn]
        exact ⟨fun hz => ⟨n, hn, hz⟩, fun ⟨m, hm, hz⟩ => hn.unique hm ▸ hz⟩ }
  · obtain ⟨⟨n', hn'⟩, rfl⟩ := decodeHeader_decoded hg
    rw [sameFields_decoded_iff hn hn']
    exact ⟨fun ha => ⟨n, hn, ha⟩, fun ⟨m, hm, ha⟩ => hn.unique hm ▸ ha⟩

/-- A buffer with the type `a` and garbage after its terminator. -/
def garbage : Buf maxDataSize := fun i => if i.val = 6 then 97 else if i.val = 7 then 0 else 170

theorem garbage_firstNul : FirstNul garbage ⟨7, by decide⟩ where
  inType := by decide
  nul := rfl
  first := by decide

/-- The garbage is gone after decoding and encoding. -/
theorem decode_encode_normalises_garbage :
    (decoded garbage).messageType = [97] ∧
      ((decoded garbage).messageType ≠ [] →
        ∃ d', Normalises .little garbage (decoded garbage) d') ∧
      ∀ e' g g₁, (decodeHeader e').run g = .ok () g₁ →
        (SameFields (decoded garbage) g₁ ↔
          ∃ n, FirstNul garbage n ∧ AgreeTo n garbage g.data) :=
  ⟨by decide, decode_encode_normalises (h := { data := garbage })
    (decodeHeader_ok_iff.mpr ⟨⟨_, garbage_firstNul⟩, rfl⟩)⟩

end MessageHeader

end CommCore
