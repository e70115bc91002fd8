import CommCore.Comm.HeaderOps

/-!
# A header stays in its 32 bytes

`encode_header` copies the type by its size and does not check it: a type longer than its field
leaves `data_` (`encodeHeader_undefined_iff`), and one of exactly that size leaves no terminator.
Two writers set the type, `message_type` and `decode_header`.

- **Bound** (`TypeFits`). The type is shorter than its field. Each operation keeps this, returning
  or throwing (`Op.exec_cases`), so it holds over the whole life of a header (`typeFits_inductive`).
- **Safety** (`BufferSafe`). So no operation ever leaves `data_`, and what `encode_header` makes
  ends with a NUL and can be decoded (`lives_bufferSafe`).
-/

namespace CommCore

namespace MessageHeader

open Lib

/-- The type is shorter than its field. -/
def TypeFits (h : Header) : Prop := h.messageType.length < typeSize

/-- The encoder leaves `data_` exactly with a type longer than its field. -/
theorem encodeHeader_undefined_iff (e : Endian) {h : Header} :
    (∃ h', (encodeHeader e).run h = .error .undefined h') ↔ typeSize < h.messageType.length := by
  refine ⟨fun ⟨h', hu⟩ => ?_, encodeHeader_out e⟩
  rcases encodeHeader_cases e h with ⟨-, hrun⟩ | ⟨-, -, hrun⟩ | ⟨hs, -⟩
  · rw [hrun] at hu
    cases hu
  · rw [hrun] at hu
    cases hu
  · exact hs

/-- What the bytes are after an encoder that returns. -/
theorem data_of_encoded {e : Endian} {h h' : Header} (hr : (encodeHeader e).run h = .ok () h') :
    h'.data = layout h.data h.messageType h.messageLength h.messageVersion := by
  rcases encodeHeader_cases e h with ⟨-, hrun⟩ | ⟨-, -, hrun⟩ | ⟨-, h'', hrun⟩
  · rw [hrun] at hr
    cases hr
  · rw [hrun] at hr
    cases hr
    rfl
  · rw [hrun] at hr
    cases hr

/-- Each operation returns or throws, and keeps the bound. -/
theorem Op.exec_cases (e : Endian) (op : Op) {h : Header} (hf : TypeFits h) :
    ∃ h', ((op.exec e).run h = .ok () h' ∨ ∃ ex, (op.exec e).run h = .error (.thrown ex) h') ∧
      TypeFits h' := by
  have hlt : h.messageType.length < typeSize := hf
  cases op with
  | messageType t =>
    have hrun := setMessageType_run t h
    by_cases ht : typeSize ≤ t.length
    · rw [if_pos ht] at hrun
      exact ⟨_, .inr ⟨_, hrun⟩, hlt⟩
    · rw [if_neg ht] at hrun
      exact ⟨_, .inl hrun, Nat.lt_of_not_le ht⟩
  | messageLength l => exact ⟨{ h with messageLength := l }, .inl rfl, hlt⟩
  | messageVersion v => exact ⟨{ h with messageVersion := v }, .inl rfl, hlt⟩
  | encodeHeader =>
    by_cases hn : h.messageType = []
    · exact ⟨_, .inr ⟨_, encodeHeader_empty e hn⟩, hlt⟩
    · exact ⟨_, .inl (encodeHeader_ok e (Nat.le_of_lt hlt) hn), hlt⟩
  | decodeHeader =>
    have hrun := decodeHeader_run e h
    by_cases he : (cstr (typeField h.data)).length = typeSize
    · rw [if_pos he] at hrun
      exact ⟨_, .inr ⟨_, hrun⟩, hlt⟩
    · rw [if_neg he] at hrun
      -- the search has stopped before the end of the field
      have hle := length_cstr_le (typeField h.data)
      rw [length_typeField] at hle
      have hstop : (cstr (typeField h.data)).length < typeSize := by omega
      exact ⟨_, .inl hrun, hstop⟩
  | overwrite d => exact ⟨{ h with data := d }, .inl rfl, hlt⟩

/-- The bound holds over the whole life of a header. -/
theorem typeFits_inductive (e : Endian) : (lives e).Inductive TypeFits where
  init h hi := by
    obtain ⟨d, rfl⟩ := hi
    show 0 < typeSize
    decide
  step h op h' hf hst := by
    obtain ⟨h'', hok | ⟨ex, hex⟩, hf''⟩ := op.exec_cases e hf
    · rw [show h' = _ from hst, Exec.final_ok hok]
      exact hf''
    · rw [show h' = _ from hst, Exec.final_error hex]
      exact hf''

/-- The last byte of `data_`. -/
def lastByte : Fin maxDataSize := ⟨31, by decide⟩

/-- The safety of a header:

* `type`: the type has 25 bytes at most;
* `inside`: no operation does anything undefined, so every access stays in `data_`;
* `terminated`: after an `encode_header` that returns, the last byte is NUL;
* `decodes`: a `decode_header` of what it has made returns, on any header and any host. -/
structure BufferSafe (e : Endian) (h : Header) : Prop where
  type : h.messageType.length ≤ 25
  inside : ∀ op h', (Op.exec e op).run h ≠ .error .undefined h'
  terminated : ∀ h', (encodeHeader e).run h = .ok () h' → h'.data lastByte = 0
  decodes : ∀ h', (encodeHeader e).run h = .ok () h' →
    ∀ e' (g : Header), ∃ g', (decodeHeader e').run { g with data := h'.data } = .ok () g'

theorem TypeFits.bufferSafe {h : Header} (hf : TypeFits h) (e : Endian) : BufferSafe e h where
  type := Nat.le_of_lt_succ hf
  inside op h' hu := by
    obtain ⟨h'', hok | ⟨ex, hex⟩, -⟩ := op.exec_cases e hf
    · rw [hok] at hu
      cases hu
    · rw [hex] at hu
      cases hu
  terminated h' henc := by
    have hlt : h.messageType.length < 26 := hf
    rw [data_of_encoded henc]
    refine (layout_wire h.data _ _ (Nat.le_of_lt hf)).zero lastByte ?_
    show 6 + h.messageType.length ≤ 31
    omega
  decodes h' henc e' g := by
    rw [data_of_encoded henc]
    exact ⟨_, decode_send e' h.messageLength h.messageVersion g h.data hf⟩

/-- **A header stays in its 32 bytes over its whole life**, whatever is called on it, written into
its bytes or caught. -/
theorem lives_bufferSafe (e : Endian) {h : Header} (hr : (lives e).Reach h) : BufferSafe e h :=
  ((typeFits_inductive e).reach hr).bufferSafe e

/-- A header that has encoded a type, was overwritten, and has thrown. -/
theorem lives_bufferSafe_thrown : ∃ h h',
    (lives .little).Run [.messageType [97], .encodeHeader, .overwrite fun _ => 255] h ∧
      (decodeHeader .little).run h = .error (.thrown noTerminator) h' ∧ BufferSafe .little h' := by
  have hrun : (lives .little).Run [] { data := fun _ => 0 } := .start ⟨_, rfl⟩
  have hrun := hrun.snoc (l := .messageType [97]) rfl
  have hrun := hrun.snoc (l := .encodeHeader) rfl
  have hrun := hrun.snoc (l := .overwrite fun _ => 255) rfl
  have hfull : (cstr (typeField fun _ => 255)).length = typeSize := by decide
  have hdec : ∀ g : Header, ∃ h', (decodeHeader .little).run { g with data := fun _ => 255 } =
      .error (.thrown noTerminator) h' :=
    fun g => ⟨_, (decodeHeader_run .little _).trans (if_pos hfull)⟩
  obtain ⟨h', hdec⟩ := hdec _
  have hthrow := hrun.snoc (l := Op.decodeHeader) (Exec.final_error hdec).symm
  exact ⟨_, _, hrun, hdec, lives_bufferSafe .little hthrow.reach⟩

end MessageHeader

end CommCore
