import Mathlib.Algebra.BigOperators.Fin
import Mathlib.Data.List.TakeWhile

/-!
# Bytes, words and buffers

- **Words.** A word of `n` bytes is a number below `256 ^ n`. Its bytes, least significant first,
  are Mathlib's `finFunctionFinEquiv`; `Word.be` lists them most significant first.
- **Hosts.** A host keeps a word in memory in its own byte order (`Endian.bytes`) and reads it back
  in that order (`Endian.word`). `Endian.bigOfNative` reverses the bytes on a little-endian host:
  what it stores is then the same on every host (`bytes_bigOfNative`).
- **Buffers.** A buffer is a function from its indices. `copyIn` writes a block of bytes at an
  offset, `copyOut` reads one; both are `none` if the block leaves the buffer.
- **Strings.** A string is a list of bytes; `cstr` is the part before the first NUL.
-/

namespace Lib

/-! ## Words -/

abbrev Byte := Fin 256

/-- For the literals of bytes. -/
instance neZero_byte : NeZero (256 : Nat) := ⟨by decide⟩

/-- An unsigned integer of `n` bytes. -/
abbrev Word (n : Nat) := Fin (256 ^ n)

/-- For the literals of words. -/
instance neZero_word2 : NeZero (256 ^ 2 : Nat) := ⟨by decide⟩

instance neZero_word4 : NeZero (256 ^ 4 : Nat) := ⟨by decide⟩

/-- A block of `n` bytes. -/
abbrev Buf (n : Nat) := Fin n → Byte

variable {n k : Nat}

/-- The bytes of a word, least significant first. -/
def Word.le (x : Word n) : Buf n := finFunctionFinEquiv.symm x

/-- The word with the given bytes, least significant first. -/
def Word.ofLE (b : Buf n) : Word n := finFunctionFinEquiv b

/-- The bytes of a word, most significant first. -/
def Word.be (x : Word n) : Buf n := x.le ∘ Fin.rev

/-- The word with the given bytes, most significant first. -/
def Word.ofBE (b : Buf n) : Word n := Word.ofLE (b ∘ Fin.rev)

@[simp] theorem Word.le_ofLE (b : Buf n) : (Word.ofLE b).le = b :=
  finFunctionFinEquiv.symm_apply_apply b

@[simp] theorem Word.ofLE_le (x : Word n) : Word.ofLE x.le = x :=
  finFunctionFinEquiv.apply_symm_apply x

theorem comp_rev_rev (b : Buf n) : (b ∘ Fin.rev) ∘ Fin.rev = b := by
  funext i
  show b (Fin.rev (Fin.rev i)) = b i
  rw [Fin.rev_rev]

@[simp] theorem Word.ofBE_be (x : Word n) : Word.ofBE x.be = x := by
  unfold Word.ofBE Word.be
  rw [comp_rev_rev, Word.ofLE_le]

@[simp] theorem Word.be_ofBE (b : Buf n) : (Word.ofBE b).be = b := by
  unfold Word.ofBE Word.be
  rw [Word.le_ofLE, comp_rev_rev]

/-- The digits of a word to the base 256, most significant first. -/
theorem Word.be_val (x : Word n) (i : Fin n) :
    (x.be i).val = x.val / 256 ^ (n - (i.val + 1)) % 256 := by
  show (finFunctionFinEquiv.symm x (Fin.rev i)).val = _
  rw [finFunctionFinEquiv_symm_apply_val, Fin.val_rev]

/-! ## Hosts -/

/-- The byte order of a host. -/
inductive Endian where
  | little
  | big
  deriving DecidableEq, Repr

/-- A word in the memory of the host. -/
def Endian.bytes : Endian → Word n → Buf n
  | .little, x => x.le
  | .big, x => x.be

/-- The word that the host reads from its memory. -/
def Endian.word : Endian → Buf n → Word n
  | .little, b => Word.ofLE b
  | .big, b => Word.ofBE b

/-- The conversion between the host's byte order and big-endian: it reverses the bytes on a
little-endian host. -/
def Endian.bigOfNative : Endian → Word n → Word n
  | .little, x => Word.ofBE x.le
  | .big, x => x

/-- A converted word is stored most significant byte first on every host. -/
theorem bytes_bigOfNative (e : Endian) (x : Word n) : e.bytes (e.bigOfNative x) = x.be := by
  cases e with
  | little =>
    show (Word.ofBE x.le).le = x.le ∘ Fin.rev
    unfold Word.ofBE
    rw [Word.le_ofLE]
  | big => rfl

/-- A word read and converted is read most significant byte first on every host. -/
theorem bigOfNative_word (e : Endian) (b : Buf n) : e.bigOfNative (e.word b) = Word.ofBE b := by
  cases e with
  | little =>
    show Word.ofBE (Word.ofLE b).le = _
    rw [Word.le_ofLE]
  | big => rfl

/-! ## Buffers -/

/-- `a` with the block `b` at the offset `o`. -/
def Buf.put (a : Buf n) (o : Nat) (b : Buf k) : Buf n := fun i =>
  if h : o ≤ i ∧ i < o + k then b ⟨i - o, by omega⟩ else a i

/-- The block of `k` bytes of `a` at the offset `o`. -/
def Buf.block (a : Buf n) (o k : Nat) (h : o + k ≤ n) : Buf k := fun i => a ⟨o + i, by omega⟩

/-- Writing a block, unless it leaves the buffer. -/
def Buf.copyIn (a : Buf n) (o : Nat) (b : Buf k) : Option (Buf n) :=
  if o + k ≤ n then some (a.put o b) else none

/-- Reading a block, unless it leaves the buffer. -/
def Buf.copyOut (a : Buf n) (o k : Nat) : Option (Buf k) :=
  if h : o + k ≤ n then some (a.block o k h) else none

theorem copyIn_eq {a : Buf n} {o : Nat} {b : Buf k} (h : o + k ≤ n) :
    a.copyIn o b = some (a.put o b) := if_pos h

theorem copyOut_eq {a : Buf n} {o : Nat} (h : o + k ≤ n) :
    a.copyOut o k = some (a.block o k h) := dif_pos h

/-- A write, at an index of its block. -/
theorem put_at (a : Buf n) {o : Nat} (b : Buf k) (i : Fin n) (j : Fin k) (h : i.val = o + j.val) :
    a.put o b i = b j := by
  unfold Buf.put
  rw [dif_pos (by omega)]
  congr 1
  exact Fin.ext (by simp only [h]; omega)

/-- A write, at an index outside its block. -/
theorem put_off (a : Buf n) {o : Nat} (b : Buf k) (i : Fin n) (h : i.val < o ∨ o + k ≤ i.val) :
    a.put o b i = a i := dif_neg (by omega)

/-- An index of a block that was read. -/
theorem at_of_block {a : Buf n} {o : Nat} {h : o + k ≤ n} {b : Buf k} (hb : a.block o k h = b)
    (i : Fin n) (j : Fin k) (hij : i.val = o + j.val) : a i = b j := by
  have hi : i = ⟨o + j.val, by omega⟩ := Fin.ext hij
  rw [← hb, hi]
  rfl

/-- A read of the written block. -/
theorem block_put (a : Buf n) {o : Nat} (b : Buf k) (h : o + k ≤ n) :
    (a.put o b).block o k h = b := by
  funext i
  exact put_at a b _ i rfl

/-- A read of a block that does not overlap the written one. -/
theorem block_put_disjoint (a : Buf n) {o o' k' : Nat} (b : Buf k) (h : o' + k' ≤ n)
    (hd : o + k ≤ o' ∨ o' + k' ≤ o) : (a.put o b).block o' k' h = a.block o' k' h := by
  funext i
  exact put_off a b _ (by show o' + i.val < o ∨ o + k ≤ o' + i.val; omega)

/-- A read of a block, a part of which was written over. -/
theorem block_put_put (a : Buf n) {o q k' : Nat} (b : Buf k') (c : Buf k) (h : o + k' ≤ n)
    (hq : o ≤ q) : ((a.put o b).put q c).block o k' h = b.put (q - o) c := by
  funext i
  show ((a.put o b).put q c) ⟨o + i.val, _⟩ = _
  by_cases hi : q ≤ o + i.val ∧ o + i.val < q + k
  · have hj : o + i.val - q < k := by omega
    rw [put_at _ c _ ⟨o + i.val - q, hj⟩ (by show o + i.val = q + (o + i.val - q); omega),
      put_at b c i ⟨o + i.val - q, hj⟩ (by show i.val = q - o + (o + i.val - q); omega)]
  · rw [put_off _ c _ (by show o + i.val < q ∨ q + k ≤ o + i.val; omega),
      put_off b c i (by omega)]
    exact put_at a b _ i rfl

/-! ## Strings -/

/-- A string of bytes. -/
abbrev Str := List Byte

/-- The UTF-8 bytes of a literal. -/
def lit (s : String) : Str := (s.toList.flatMap String.utf8EncodeChar).map UInt8.toFin

/-- The bytes of a string as a block. -/
def Str.buf (s : Str) : Buf s.length := s.get

/-- The bytes before the first NUL. -/
def cstr (s : Str) : Str := s.takeWhile (· ≠ 0)

/-- A string copied to the start of a zeroed buffer. -/
theorem ofFn_put_zeros (s : Str) (h : s.length ≤ n) :
    List.ofFn (Buf.put (fun _ => 0 : Buf n) 0 s.buf) =
      s ++ List.replicate (n - s.length) 0 := by
  refine List.ext_getElem (by simp; omega) fun i h₁ h₂ => ?_
  rw [List.length_ofFn] at h₁
  rw [List.getElem_ofFn]
  by_cases hi : i < s.length
  · rw [List.getElem_append_left hi, put_at _ s.buf ⟨i, h₁⟩ ⟨i, hi⟩ (Nat.zero_add i).symm]
    rfl
  · rw [List.getElem_append_right (by omega), List.getElem_replicate,
      put_off _ s.buf ⟨i, h₁⟩ (by show i < 0 ∨ 0 + s.length ≤ i; omega)]

/-- The part before the first NUL of a string followed by NULs. -/
theorem cstr_append_zeros (s : Str) (m : Nat) : cstr (s ++ List.replicate m 0) = cstr s := by
  unfold cstr
  induction s with
  | nil => cases m <;> rfl
  | cons b s ih =>
    by_cases hb : b = 0
    · subst hb; rfl
    · rw [List.cons_append, List.takeWhile_cons_of_pos (by simpa using hb),
        List.takeWhile_cons_of_pos (by simpa using hb), ih]

theorem cstr_eq_self_iff (s : Str) : cstr s = s ↔ 0 ∉ s := by
  unfold cstr
  rw [List.takeWhile_eq_self_iff]
  refine ⟨fun h h0 => by simpa using h 0 h0, fun h b hb => ?_⟩
  have : b ≠ 0 := fun e => h (e ▸ hb)
  simpa using this

/-- Where the part before the first NUL ends. -/
theorem length_cstr_eq_iff {s : Str} {m : Nat} (hm : m < s.length) :
    (cstr s).length = m ↔ s[m]? = some 0 ∧ ∀ j < m, s[j]? ≠ some 0 := by
  induction s generalizing m with
  | nil => exact absurd hm (Nat.not_lt_zero m)
  | cons b s ih =>
    by_cases hb : b = 0
    · have hc : cstr (b :: s) = [] := List.takeWhile_cons_of_neg (by simp [hb])
      rw [hc]
      cases m with
      | zero => simp [hb]
      | succ m =>
        refine iff_of_false (Nat.succ_ne_zero m).symm fun h => h.2 0 (Nat.zero_lt_succ m) ?_
        rw [hb]
        rfl
    · have hc : cstr (b :: s) = b :: cstr s := List.takeWhile_cons_of_pos (by simpa using hb)
      rw [hc]
      cases m with
      | zero => simp [hb]
      | succ m =>
        rw [List.length_cons, Nat.succ_inj, ih (Nat.lt_of_succ_lt_succ hm), List.getElem?_cons_succ]
        refine and_congr Iff.rfl ⟨fun h j hj => ?_, fun h j hj => ?_⟩
        · cases j with
          | zero => simpa using hb
          | succ j => exact h j (Nat.lt_of_succ_lt_succ hj)
        · exact h (j + 1) (Nat.succ_lt_succ hj)

/-- The part before the first NUL has none. -/
theorem cstr_cstr (s : Str) : cstr (cstr s) = cstr s := List.takeWhile_idem

theorem length_cstr_le (s : Str) : (cstr s).length ≤ s.length :=
  (List.takeWhile_sublist _).length_le

end Lib
