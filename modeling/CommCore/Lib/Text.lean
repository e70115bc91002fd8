import CommCore.Lib.Bytes

/-!
# Texts that can be taken apart

- **Decimals.** `decimal n` is the decimal text of a number. Different numbers have different texts
  (`decimal_injective`), and all of their bytes are digits.
- **Delimiters.** A text splits at its last delimiter in one way (`append_last_inj`), and a text of
  delimited parts into its parts (`intercalate_ofFn_inj`).
- **Escapes.** `substitute c r s` is `s` with `r` for each `c`. If `r` begins with `c`, then
  replacing each `r` by `c` from left to right (`replaceAll`) gives `s` back
  (`replaceAll_substitute`).
-/

namespace Lib

/-! ## Decimals -/

theorem lit_injective : Function.Injective lit := by
  intro s t h
  have hchars : s.toList.flatMap String.utf8EncodeChar = t.toList.flatMap String.utf8EncodeChar :=
    List.map_injective_iff.mpr (fun _ _ => UInt8.toFin_inj.mp) h
  have hbytes : s.toList.utf8Encode = t.toList.utf8Encode := congrArg List.toByteArray hchars
  rwa [String.utf8Encode_toList, String.utf8Encode_toList, String.toByteArray_inj] at hbytes

/-- The decimal text of a number. -/
def decimal (n : Nat) : Str := lit (toString n)

theorem decimal_injective : Function.Injective decimal := by
  intro m n h
  have hs : toString m = toString n := lit_injective h
  rw [Nat.toString_eq_ofList_toDigits, Nat.toString_eq_ofList_toDigits, String.ofList_inj] at hs
  calc m = Nat.ofDigitChars 10 (Nat.toDigits 10 m) 0 := Nat.ofDigitChars_ten_toDigits.symm
    _ = Nat.ofDigitChars 10 (Nat.toDigits 10 n) 0 := by rw [hs]
    _ = n := Nat.ofDigitChars_ten_toDigits

/-- The bytes of a decimal text are digits. -/
theorem digit_of_mem_decimal {n : Nat} {b : Byte} (h : b ∈ decimal n) :
    48 ≤ b.val ∧ b.val ≤ 57 := by
  unfold decimal lit at h
  rw [Nat.toString_eq_ofList_toDigits, String.toList_ofList] at h
  obtain ⟨u, hu, rfl⟩ := List.mem_map.mp h
  obtain ⟨c, hc, hu⟩ := List.mem_flatMap.mp hu
  have hdigit : 48 ≤ c.toNat ∧ c.toNat ≤ 57 :=
    Char.isDigit_iff_toNat.mp (Nat.isDigit_of_mem_toDigits (by decide) (by decide) hc)
  -- a digit is one byte
  have hsize : c.utf8Size = 1 := by
    rw [Char.utf8Size_eq_one_iff, UInt32.le_iff_toNat_le]
    show c.toNat ≤ 127
    omega
  rw [String.utf8EncodeChar_eq_singleton hsize, List.mem_singleton] at hu
  rw [hu]
  show 48 ≤ c.toNat % 256 ∧ c.toNat % 256 ≤ 57
  rw [Nat.mod_eq_of_lt (by omega)]
  exact hdigit

theorem not_mem_decimal {n : Nat} {b : Byte} (h : b.val < 48 ∨ 57 < b.val) : b ∉ decimal n := by
  intro hb
  have := digit_of_mem_decimal hb
  omega

/-! ## Delimiters -/

section Delimiters

variable {α : Type} {c : α}

/-- A text splits at its last delimiter in one way. -/
theorem append_last_inj {a b x y : List α} (hx : c ∉ x) (hy : c ∉ y)
    (h : a ++ c :: x = b ++ c :: y) : a = b ∧ x = y := by
  rcases List.append_eq_append_iff.mp h with ⟨m, rfl, hm⟩ | ⟨m, rfl, hm⟩
  · cases m with
    | nil => cases hm; exact ⟨by rw [List.append_nil], rfl⟩
    | cons d m =>
      -- the delimiter after `b` would be in `x`
      cases hm
      exact absurd (by simp) hx
  · cases m with
    | nil => cases hm; exact ⟨by rw [List.append_nil], rfl⟩
    | cons d m =>
      cases hm
      exact absurd (by simp) hy

/-- The bytes of a delimited text are those of its parts, and the delimiter. -/
theorem mem_intercalate {b : α} {parts : List (List α)} (h : b ∈ [c].intercalate parts) :
    b = c ∨ ∃ p ∈ parts, b ∈ p := by
  induction parts with
  | nil => cases h
  | cons p parts ih =>
    cases parts with
    | nil =>
      rw [List.intercalate_singleton] at h
      exact .inr ⟨p, List.mem_cons_self, h⟩
    | cons q parts =>
      rw [List.intercalate_cons_cons, List.mem_append, List.mem_append, List.mem_singleton] at h
      rcases h with (h | h) | h
      · exact .inr ⟨p, List.mem_cons_self, h⟩
      · exact .inl h
      · rcases ih h with h | ⟨p', hp', h⟩
        · exact .inl h
        · exact .inr ⟨p', List.mem_cons_of_mem _ hp', h⟩

/-- A text of parts with a delimiter between them has these parts only. -/
theorem intercalate_ofFn_inj [BEq α] [LawfulBEq α] {n : Nat} (hn : n ≠ 0)
    {f g : Fin n → List α} (hf : ∀ i, c ∉ f i) (hg : ∀ i, c ∉ g i)
    (h : [c].intercalate (List.ofFn f) = [c].intercalate (List.ofFn g)) : f = g := by
  have hsplit : ∀ f : Fin n → List α, (∀ i, c ∉ f i) →
      ([c].intercalate (List.ofFn f)).splitOn c = List.ofFn f := by
    intro f hf
    refine List.splitOn_intercalate c ?_ (by simpa using hn)
    intro l hl
    obtain ⟨i, rfl⟩ := List.mem_ofFn.mp hl
    exact hf i
  have hparts := congrArg (List.splitOn c) h
  rw [hsplit f hf, hsplit g hg] at hparts
  exact List.ofFn_injective hparts

end Delimiters

/-! ## Escapes -/

section Escapes

variable {α : Type} [DecidableEq α] {c : α} {r : List α}

/-- `s` with `r` for each `c`. -/
def substitute (c : α) (r : List α) (s : List α) : List α :=
  s.flatMap fun b => if b = c then r else [b]

theorem substitute_cons_self (s : List α) :
    substitute c r (c :: s) = r ++ substitute c r s := by
  unfold substitute
  rw [List.flatMap_cons, if_pos rfl]

theorem substitute_cons_ne {b : α} (h : b ≠ c) (s : List α) :
    substitute c r (b :: s) = b :: substitute c r s := by
  unfold substitute
  rw [List.flatMap_cons, if_neg h]
  rfl

theorem substitute_append (s t : List α) :
    substitute c r (s ++ t) = substitute c r s ++ substitute c r t := List.flatMap_append

/-- Without the byte nothing is replaced. -/
theorem substitute_of_not_mem {s : List α} (h : c ∉ s) : substitute c r s = s := by
  induction s with
  | nil => rfl
  | cons b s ih =>
    rw [List.mem_cons, not_or] at h
    rw [substitute_cons_ne (Ne.symm h.1), ih h.2]

/-- `s` with `t` for each `p` (not empty), from left to right. -/
def replaceAll (p t : List α) : List α → List α
  | [] => []
  | b :: s =>
    if p <+: b :: s then t ++ replaceAll p t (s.drop (p.length - 1))
    else b :: replaceAll p t s
termination_by s => s.length
decreasing_by
  · rw [List.length_drop, List.length_cons]
    omega
  · exact Nat.lt_succ_self _

theorem replaceAll_append (t s : List α) :
    replaceAll (c :: r) t ((c :: r) ++ s) = t ++ replaceAll (c :: r) t s := by
  have hp : c :: r <+: c :: (r ++ s) := List.prefix_append (c :: r) s
  rw [List.cons_append, replaceAll, if_pos hp, List.length_cons, Nat.add_sub_cancel,
    List.drop_left]

theorem replaceAll_cons_ne {b : α} (h : b ≠ c) (t s : List α) :
    replaceAll (c :: r) t (b :: s) = b :: replaceAll (c :: r) t s := by
  have hp : ¬ c :: r <+: b :: s := fun hp => h (List.cons_prefix_cons.mp hp).1.symm
  rw [replaceAll, if_neg hp]

/-- A replacement that begins with what it replaces is undone from left to right. -/
theorem replaceAll_substitute (s : List α) :
    replaceAll (c :: r) [c] (substitute c (c :: r) s) = s := by
  induction s with
  | nil =>
    show replaceAll (c :: r) [c] [] = []
    rw [replaceAll]
  | cons b s ih =>
    by_cases h : b = c
    · rw [h, substitute_cons_self, replaceAll_append, ih]
      rfl
    · rw [substitute_cons_ne h, replaceAll_cons_ne h, ih]

theorem substitute_injective : Function.Injective (substitute c (c :: r)) :=
  Function.LeftInverse.injective replaceAll_substitute

end Escapes

end Lib
