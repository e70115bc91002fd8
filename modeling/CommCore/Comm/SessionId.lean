import CommCore.Comm.ZoneEscape

/-!
# What session ids identify (`session::id`)

The port is what follows the last `:` of an id. Before it is a host of digits and dots, or an
escaped one in brackets. So the id of a connected socket determines its remote endpoint, and is not
`unknown` (`ids_identify`).

`TextLaws` is what is assumed of `address::to_string`; `plainText` is an instance of it.
-/

namespace CommCore

namespace Session

open Lib

/-! ## Ids -/

/-- What is assumed of `address::to_string`. -/
structure TextLaws (text : Address → Str) : Prop where
  v4_inj : ∀ b b', text (.v4 b) = text (.v4 b') → b = b'
  v6_inj : ∀ b z b' z', text (.v6 b z) = text (.v6 b' z') → b = b' ∧ z = z'
  /-- The text of an IPv4 address does not begin with `[`. -/
  v4_head : ∀ b, (text (.v4 b)).head? ≠ some 91

variable {text : Address → Str}

variable (text) in
/-- What precedes the port in an id. -/
def hostText (a : Address) : Str :=
  if a.isV6 then lit "[" ++ escapeZone (text a) 0 ++ lit "]" else text a

theorem id_connected (e : Endpoint) : Session.id text ⟨some e⟩ =
    hostText text e.address ++ 58 :: decimal e.port.val := by
  have hcolon : lit ":" = [58] := by decide
  show hostText text e.address ++ lit ":" ++ decimal e.port.val = _
  rw [hcolon, List.append_assoc]
  rfl

/-- The id for an IPv6 address: its text in brackets, with each `%` escaped. -/
theorem id_v6 (b : Buf 16) (z : Word 4) (port : Word 2) : Session.id text ⟨some ⟨.v6 b z, port⟩⟩ =
    lit "[" ++ escaped (text (.v6 b z)) ++ lit "]" ++ 58 :: decimal port.val := by
  rw [id_connected, ← escapeZone_eq]
  rfl

/-- Different addresses have different hosts, with brackets or without. -/
theorem hostText_injective (ht : TextLaws text) : Function.Injective (hostText text) := by
  have hopen : lit "[" = [91] := by decide
  have hne : ∀ b b' z', hostText text (.v4 b) ≠ hostText text (.v6 b' z') := by
    intro b b' z' h
    have h' : text (.v4 b) = lit "[" ++ escapeZone (text (.v6 b' z')) 0 ++ lit "]" := h
    refine ht.v4_head b ?_
    rw [h', hopen]
    rfl
  intro a a' h
  cases a with
  | v4 b =>
    cases a' with
    | v4 b' => rw [ht.v4_inj b b' h]
    | v6 b' z' => exact absurd h (hne b b' z')
  | v6 b z =>
    cases a' with
    | v4 b' => exact absurd h.symm (hne b' b z)
    | v6 b' z' =>
      have h' : lit "[" ++ escapeZone (text (.v6 b z)) 0 ++ lit "]" =
        lit "[" ++ escapeZone (text (.v6 b' z')) 0 ++ lit "]" := h
      have hhost := escapeZone_injective (List.append_cancel_left (List.append_cancel_right h'))
      obtain ⟨rfl, rfl⟩ := ht.v6_inj b z b' z' hhost
      rfl

variable (text) in
/-- The ids of connected sockets identify their remote endpoints. -/
structure IdsIdentify : Prop where
  endpoint : ∀ e₁ e₂ : Endpoint, Session.id text ⟨some e₁⟩ = Session.id text ⟨some e₂⟩ →
    e₁.address = e₂.address ∧ e₁.port = e₂.port
  known : ∀ e : Endpoint, Session.id text ⟨some e⟩ ≠ unknownId

/-- **The id of a connected socket determines its remote endpoint**, and is not that of a socket
without one. -/
theorem ids_identify (ht : TextLaws text) : IdsIdentify text where
  endpoint e₁ e₂ h := by
    have hdec : ∀ n : Nat, (58 : Byte) ∉ decimal n := fun n => not_mem_decimal (by decide)
    rw [id_connected, id_connected] at h
    obtain ⟨hhost, hport⟩ := append_last_inj (hdec _) (hdec _) h
    exact ⟨hostText_injective ht hhost, Fin.ext (decimal_injective hport)⟩
  known e h := by
    have hcolon : (58 : Byte) ∉ unknownId := by decide
    rw [← h, id_connected] at hcolon
    exact hcolon (List.mem_append_right _ List.mem_cons_self)

/-! ## Plain texts of addresses -/

def hexDigit (d : Fin 16) : Byte :=
  if d.val < 10 then ⟨48 + d.val, by omega⟩ else ⟨87 + d.val, by omega⟩

def hexByte (b : Byte) : Str :=
  [hexDigit ⟨b.val / 16, by omega⟩, hexDigit ⟨b.val % 16, by omega⟩]

def dotted (b : Buf 4) : Str := [46].intercalate (List.ofFn fun i => decimal (b i).val)

/-- The eight groups of four digits. -/
def groups (b : Buf 16) : Str :=
  [58].intercalate (List.ofFn fun i : Fin 8 =>
    hexByte (b ⟨2 * i.val, by omega⟩) ++ hexByte (b ⟨2 * i.val + 1, by omega⟩))

/-- Dotted decimals, or groups and the scope, without the abbreviations for groups with leading
zeros. -/
def plainText : Address → Str
  | .v4 b => dotted b
  | .v6 b z => groups b ++ if z.val = 0 then [] else 37 :: decimal z.val

theorem hexDigit_injective : Function.Injective hexDigit := by
  intro d d' h
  revert d d'
  decide

theorem hexByte_injective : Function.Injective hexByte := by
  intro b b' h
  have hhigh := hexDigit_injective (List.cons.inj h).1
  have hlow := hexDigit_injective (List.cons.inj (List.cons.inj h).2).1
  have hdiv : b.val / 16 = b'.val / 16 := Fin.mk.inj hhigh
  have hmod : b.val % 16 = b'.val % 16 := Fin.mk.inj hlow
  exact Fin.ext (by omega)

/-- The bytes of a hexadecimal text are digits. -/
theorem hex_of_mem_hexByte {b c : Byte} (h : c ∈ hexByte b) : ∃ d, c = hexDigit d := by
  rcases List.mem_cons.mp h with rfl | h
  · exact ⟨_, rfl⟩
  · exact ⟨_, List.mem_singleton.mp h⟩

theorem not_mem_group {c : Byte} (h : ∀ d, c ≠ hexDigit d) (b b' : Byte) :
    c ∉ hexByte b ++ hexByte b' := by
  intro hc
  rcases List.mem_append.mp hc with hc | hc
  · obtain ⟨d, hd⟩ := hex_of_mem_hexByte hc
    exact h d hd
  · obtain ⟨d, hd⟩ := hex_of_mem_hexByte hc
    exact h d hd

theorem dotted_injective : Function.Injective dotted := by
  intro b b' h
  have hparts := intercalate_ofFn_inj (by decide) (fun _ => not_mem_decimal (by decide))
    (fun _ => not_mem_decimal (by decide)) h
  funext i
  exact Fin.ext (decimal_injective (congrFun hparts i))

theorem groups_injective : Function.Injective groups := by
  intro b b' h
  have hcolon : ∀ d, (58 : Byte) ≠ hexDigit d := by decide
  have hparts := intercalate_ofFn_inj (by decide) (fun _ => not_mem_group hcolon _ _)
    (fun _ => not_mem_group hcolon _ _) h
  funext i
  obtain ⟨hfst, hsnd⟩ := List.append_inj (congrFun hparts ⟨i.val / 2, by omega⟩) rfl
  rcases Nat.mod_two_eq_zero_or_one i.val with hi | hi
  · have hidx : i = ⟨2 * (i.val / 2), by omega⟩ := by
      rw [Fin.ext_iff]
      show i.val = 2 * (i.val / 2)
      omega
    rw [hidx]
    exact hexByte_injective hfst
  · have hidx : i = ⟨2 * (i.val / 2) + 1, by omega⟩ := by
      rw [Fin.ext_iff]
      show i.val = 2 * (i.val / 2) + 1
      omega
    rw [hidx]
    exact hexByte_injective hsnd

theorem percent_not_mem_groups (b : Buf 16) : 37 ∉ groups b := by
  intro h
  rcases mem_intercalate h with h | ⟨p, hp, h⟩
  · exact absurd h (by decide)
  · obtain ⟨i, rfl⟩ := List.mem_ofFn.mp hp
    exact not_mem_group (by decide) _ _ h

theorem plainText_laws : TextLaws plainText where
  v4_inj b b' h := dotted_injective h
  v6_inj b z b' z' h := by
    have h' : groups b ++ (if z.val = 0 then [] else 37 :: decimal z.val) =
      groups b' ++ if z'.val = 0 then [] else 37 :: decimal z'.val := h
    by_cases hz : z.val = 0
    · by_cases hz' : z'.val = 0
      · rw [if_pos hz, if_pos hz', List.append_nil, List.append_nil] at h'
        exact ⟨groups_injective h', Fin.ext (hz.trans hz'.symm)⟩
      · rw [if_pos hz, if_neg hz', List.append_nil] at h'
        refine absurd ?_ (percent_not_mem_groups b)
        rw [h']
        simp
    · by_cases hz' : z'.val = 0
      · rw [if_neg hz, if_pos hz', List.append_nil] at h'
        refine absurd ?_ (percent_not_mem_groups b')
        rw [← h']
        simp
      · rw [if_neg hz, if_neg hz'] at h'
        obtain ⟨hb, hd⟩ := append_last_inj (not_mem_decimal (by decide))
          (not_mem_decimal (by decide)) h'
        exact ⟨groups_injective hb, Fin.ext (decimal_injective hd)⟩
  v4_head b h := by
    have hmem : 91 ∈ dotted b := List.mem_of_head? h
    rcases mem_intercalate hmem with h | ⟨p, hp, h⟩
    · exact absurd h (by decide)
    · obtain ⟨i, rfl⟩ := List.mem_ofFn.mp hp
      exact not_mem_decimal (by decide) h

/-- The ids for an address of each kind: IPv4, IPv6, and IPv6 with a zone. -/
theorem ids_identify_plain :
    Session.id plainText ⟨some ⟨.v4 ![192, 0, 2, 1], 5000⟩⟩ = lit "192.0.2.1:5000" ∧
    Session.id plainText ⟨some ⟨.v6 ![0x20, 0x01, 0x1d, 0xb8, 0x85, 0xa3, 0x8d, 0x31,
        0x13, 0x19, 0x8a, 0x2e, 0x73, 0x70, 0x73, 0x44] 0, 5000⟩⟩ =
      lit "[2001:1db8:85a3:8d31:1319:8a2e:7370:7344]:5000" ∧
    Session.id plainText ⟨some ⟨.v6 ![0xfe, 0x80, 0, 0, 0, 0, 0, 0,
        0x13, 0x19, 0x8a, 0x2e, 0x73, 0x70, 0x73, 0x44] 3, 5000⟩⟩ =
      lit "[fe80:0000:0000:0000:1319:8a2e:7370:7344%253]:5000" ∧
    IdsIdentify plainText := by
  refine ⟨by decide, ?_, ?_, ids_identify plainText_laws⟩
  · rw [id_v6]
    decide
  · rw [id_v6]
    decide

end Session

end CommCore
