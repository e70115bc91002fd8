import CommCore.Comm.HeaderDecoder
import CommCore.Lib.Sys

/-!
# Sequences of operations on a header

The life of a header (`lives`) is any sequence of its operations (`Op`), from its construction; an
exception is caught, and the header goes on in the state that it left.

- **Accepted buffers.** The decoder accepts what an encoder with the setters can write, up to the
  terminator, and a decoded header can be encoded again unless its type is empty: the decoder lets
  an empty type through, which the encoder refuses (`acceptsLanguage_iff`, `empty_type_accepted`).
- **Failures.** The setter of the type and the encoder check before they write. The decoder has
  stored the length and the version when it finds no terminator (`failsAtomically_iff`,
  `decode_stores_before_check`).
-/

namespace CommCore

namespace MessageHeader

open Lib

/-- An operation; `overwrite` is a write of all bytes through `data()`. -/
inductive Op where
  | messageType (t : Str)
  | messageLength (l : Word 4)
  | messageVersion (v : Word 2)
  | encodeHeader
  | decodeHeader
  | overwrite (d : Buf maxDataSize)

def Op.exec (e : Endian) : Op → Exec Exn Header Unit
  | .messageType t => setMessageType t
  | .messageLength l => setMessageLength l
  | .messageVersion v => setMessageVersion v
  | .encodeHeader => MessageHeader.encodeHeader e
  | .decodeHeader => MessageHeader.decodeHeader e
  | .overwrite d => modify fun h => { h with data := d }

def Op.isSetter : Op → Bool
  | .messageType _ | .messageLength _ | .messageVersion _ => true
  | _ => false

/-- The lives of a header: it starts with any bytes, and an exception is caught. -/
def lives (e : Endian) : Sys Header Op where
  init h := ∃ d, h = { data := d }
  step h op h' := h' = (op.exec e).final h

/-! ## Accepted buffers -/

/-- A NUL at the end of the type is not seen on the wire. -/
theorem WireLayout.of_nul {d : Buf maxDataSize} {t : Str} {l : Word 4} {v : Word 2}
    (h : WireLayout d (t ++ [0]) l v) : WireLayout d t l v where
  length := h.length
  version := h.version
  type i hi hj := by
    have hj' : i.val - 6 < (t ++ [0]).length := by
      rw [List.length_append]
      exact Nat.lt_add_right _ hj
    rw [h.type i hi hj', List.getElem_append_left hj]
  zero i hi := by
    by_cases hz : 6 + (t ++ [0]).length ≤ i.val
    · exact h.zero i hz
    · rw [List.length_append, List.length_singleton] at hz
      have hj : i.val - 6 = t.length := by omega
      rw [h.type i (by omega) (by rw [hj]; simp)]
      simp [hj]

/-- The setters and the encoder can write every canonical buffer. -/
theorem canonical_encoded (e : Endian) {d : Buf maxDataSize} {n : Fin maxDataSize}
    (hn : FirstNul d n) : ∃ ops g g', (∀ op ∈ ops, op.isSetter = true) ∧ (lives e).Run ops g ∧
      (encodeHeader e).run g = .ok () g' ∧ g'.data = canonical d := by
  have hlen := hn.length_type.2
  -- a type of one NUL stands for the empty one, which the encoder refuses
  obtain ⟨t, ht, hne, hw⟩ : ∃ t : Str, t.length < typeSize ∧ t ≠ [] ∧
      WireLayout (layout d t (lengthField d) (versionField d)) (cstr (typeField d))
        (lengthField d) (versionField d) := by
    by_cases hempty : cstr (typeField d) = []
    · refine ⟨[0], by decide, by simp, ?_⟩
      rw [hempty]
      exact (layout_wire d (t := [] ++ [0]) _ _ (by decide)).of_nul
    · exact ⟨_, hlen, hempty, layout_wire d _ _ (Nat.le_of_lt hlen)⟩
  have hset : (lives e).step { data := d } (.messageType t) { messageType := t, data := d } := by
    have hok := setMessageType_run t { data := d }
    rw [if_neg (Nat.not_le.mpr ht)] at hok
    exact (Exec.final_ok hok).symm
  have hrun : (lives e).Run [] ({ data := d } : Header) := .start ⟨d, rfl⟩
  have hrun := hrun.snoc hset
  have hrun := hrun.snoc (l := .messageLength (lengthField d)) rfl
  have hrun := hrun.snoc (l := .messageVersion (versionField d)) rfl
  have henc := encodeHeader_ok e (h := ⟨t, lengthField d, versionField d, d⟩) (Nat.le_of_lt ht) hne
  refine ⟨_, _, _, ?_, hrun, henc, hw.unique (canonical_wire hn)⟩
  simp [Op.isSetter]

/-- The decoder accepts the bytes of `h` exactly if the setters and the encoder can write a buffer
that agrees with them up to the terminator; and if it accepts them, the header can be encoded. -/
structure AcceptsLanguage (e : Endian) (h : Header) : Prop where
  accepts : (∃ h', (decodeHeader e).run h = .ok () h') ↔
    ∃ ops g g' n, (∀ op ∈ ops, Op.isSetter op = true) ∧ (lives e).Run ops g ∧
      (encodeHeader e).run g = .ok () g' ∧ FirstNul h.data n ∧ AgreeTo n h.data g'.data
  encodes : ∀ h', (decodeHeader e).run h = .ok () h' → ∃ h'', (encodeHeader e).run h' = .ok () h''

theorem accepts_iff_encoded (e : Endian) (h : Header) :
    (∃ h', (decodeHeader e).run h = .ok () h') ↔
      ∃ ops g g' n, (∀ op ∈ ops, Op.isSetter op = true) ∧ (lives e).Run ops g ∧
        (encodeHeader e).run g = .ok () g' ∧ FirstNul h.data n ∧ AgreeTo n h.data g'.data := by
  constructor
  · rintro ⟨h', hd⟩
    obtain ⟨⟨n, hn⟩, -⟩ := decodeHeader_decoded hd
    obtain ⟨ops, g, g', hops, hrun, henc, hg⟩ := canonical_encoded e hn
    exact ⟨ops, g, g', n, hops, hrun, henc, hn, hg ▸ canonical_agrees hn⟩
  · rintro ⟨-, -, -, n, -, -, -, hn, -⟩
    exact ⟨_, decodeHeader_ok_iff.mpr ⟨⟨n, hn⟩, rfl⟩⟩

/-- The first byte of the type field. -/
def typeStart : Fin maxDataSize := ⟨typeOffset, by decide⟩

theorem cstr_eq_nil_iff {d : Buf maxDataSize} {n : Fin maxDataSize} (hn : FirstNul d n) :
    cstr (typeField d) = [] ↔ d typeStart = 0 := by
  have hval := firstNul_iff.mp hn
  constructor
  · intro h
    rw [h] at hval
    have hs : n = typeStart := Fin.ext hval
    rw [← hs]
    exact hn.nul
  · intro h
    by_contra hne
    have hpos : 0 < (cstr (typeField d)).length := List.length_pos_iff.mpr hne
    refine hn.first typeStart (Nat.le_refl _) ?_ h
    show typeOffset < n.val
    omega

/-- **The decoder accepts exactly what can be encoded, and encoded again, for the buffers whose
type does not begin with NUL.** -/
theorem acceptsLanguage_iff (e : Endian) (h : Header) :
    AcceptsLanguage e h ↔ h.data typeStart ≠ 0 := by
  constructor
  · rintro ⟨-, hencodes⟩ h0
    have hn : FirstNul h.data typeStart :=
      ⟨Nat.le_refl _, h0, fun i hi hlt => absurd hlt (Nat.not_lt.mpr hi)⟩
    obtain ⟨h'', henc⟩ := hencodes _ (decodeHeader_ok_iff.mpr ⟨⟨_, hn⟩, rfl⟩)
    rw [encodeHeader_empty e ((cstr_eq_nil_iff hn).mpr h0)] at henc
    cases henc
  · refine fun h0 => ⟨accepts_iff_encoded e h, fun h' hd => ?_⟩
    obtain ⟨⟨n, hn⟩, rfl⟩ := decodeHeader_decoded hd
    have ht : cstr (typeField h.data) ≠ [] := fun ht => h0 ((cstr_eq_nil_iff hn).mp ht)
    exact ⟨_, encodeHeader_decoded e hn ht h.data⟩

/-- Thirty-two zeros are accepted, and cannot be encoded again. -/
theorem empty_type_accepted : ∃ h', (decodeHeader .little).run { data := fun _ => 0 } = .ok () h' ∧
    (encodeHeader .little).run h' = .error (.thrown typeEmpty) h' := by
  have hn : FirstNul (fun _ => 0) typeStart :=
    ⟨Nat.le_refl _, rfl, fun i hi hlt => absurd hlt (Nat.not_lt.mpr hi)⟩
  exact ⟨_, decodeHeader_ok_iff.mpr ⟨⟨_, hn⟩, rfl⟩,
    encodeHeader_empty .little ((cstr_eq_nil_iff hn).mpr rfl)⟩

/-! ## Failures -/

/-- If the operation throws, the header is as it was. -/
def FailsAtomically (e : Endian) (op : Op) (h : Header) : Prop :=
  ∀ ex h', (op.exec e).run h = .error (.thrown ex) h' → h' = h

theorem encodeHeader_throws {e : Endian} {h h' : Header} {ex : Exn}
    (hr : (encodeHeader e).run h = .error (.thrown ex) h') : h' = h := by
  rcases encodeHeader_cases e h with ⟨-, hrun⟩ | ⟨-, -, hrun⟩ | ⟨-, h'', hrun⟩
  · rw [hrun] at hr
    cases hr
    rfl
  · rw [hrun] at hr
    cases hr
  · -- what is undefined is no throw
    rw [hrun] at hr
    cases hr

/-- **An operation fails atomically, except a decoder that finds no terminator** and whose header
has another length or version than the bytes. -/
theorem failsAtomically_iff (e : Endian) (op : Op) (h : Header) :
    FailsAtomically e op h ↔ (op = .decodeHeader → (∃ n, FirstNul h.data n) ∨
      lengthField h.data = h.messageLength ∧ versionField h.data = h.messageVersion) := by
  cases op with
  | messageType t =>
    refine iff_of_true (fun ex h' hr => ?_) nofun
    change (setMessageType t).run h = _ at hr
    rw [setMessageType_run] at hr
    by_cases ht : typeSize ≤ t.length
    · rw [if_pos ht] at hr
      cases hr
      rfl
    · rw [if_neg ht] at hr
      cases hr
  | messageLength l => exact iff_of_true (fun ex h' hr => by cases hr) nofun
  | messageVersion v => exact iff_of_true (fun ex h' hr => by cases hr) nofun
  | encodeHeader => exact iff_of_true (fun ex h' hr => encodeHeader_throws hr) nofun
  | overwrite d => exact iff_of_true (fun ex h' hr => by cases hr) nofun
  | decodeHeader =>
    unfold FailsAtomically
    show (∀ ex h', (MessageHeader.decodeHeader e).run h = .error (.thrown ex) h' → h' = h) ↔ _
    rw [decodeHeader_run, exists_firstNul_iff]
    by_cases he : (cstr (typeField h.data)).length = typeSize
    · simp only [he, if_true, ne_eq, not_true_eq_false, false_or, forall_const]
      constructor
      · intro hr
        have heq := hr _ _ rfl
        exact ⟨congrArg Header.messageLength heq, congrArg Header.messageVersion heq⟩
      · rintro ⟨hl, hv⟩ ex h' hr
        cases hr
        rw [hl, hv]
    · simp only [if_neg he]
      exact iff_of_true (fun ex h' hr => by cases hr) fun _ => .inl he

/-- A decoder that finds no terminator has stored the length. -/
theorem decode_stores_before_check : ¬ FailsAtomically .little .decodeHeader
    { messageLength := 5, data := fun _ => 255 } := by
  intro h
  have hrun := decodeHeader_run .little { messageLength := 5, data := fun _ => 255 }
  rw [if_pos (by decide)] at hrun
  have heq := h _ _ hrun
  exact absurd (congrArg Header.messageLength heq) (by decide)

end MessageHeader

end CommCore
