import CommCore.Comm.Session
import CommCore.Lib.Loop
import CommCore.Lib.Text

/-!
# The loop that escapes the zone (`session::id`)

The loop edits the string that it scans. It finds a `%` from `pos` on, replaces it by `%25` in
place and goes on behind the replacement (`zoneStep`).

- **Invariant** (`Scanned`). What is before `pos` is a beginning of the host, escaped; what is
  behind it is the rest of the host, untouched.
- **Variant.** Each pass leaves less of the string behind `pos`, although the string grows
  (`zoneStep_shrinks`).
- So the loop ends with each `%` of the host replaced once and nothing else changed, and the host
  can be had back (`zone_escaped`).
-/

namespace CommCore

namespace Session

open Lib StateTransition

/-- One pass of the loop, `none` where it ends. -/
def zoneStep (s : Str × Nat) : Option (Str × Nat) :=
  (findPercent s.1 s.2).map fun p => (replacePercent s.1 p, p + 3)

/-- Each `%` replaced by `%25`. -/
def escaped (h : Str) : Str := substitute 37 (lit "%25") h

/-! ## One pass -/

theorem findIdx?_percent_none {s : Str} (h : 37 ∉ s) : s.findIdx? (· = 37) = none := by
  rw [List.findIdx?_eq_none_iff]
  intro b hb
  rw [decide_eq_false_iff_not]
  rintro rfl
  exact h hb

theorem findPercent_append_none {a s : Str} (h : 37 ∉ s) :
    findPercent (a ++ s) a.length = none := by
  unfold findPercent
  rw [List.drop_left, findIdx?_percent_none h]
  rfl

theorem findPercent_append_some {a x y : Str} (h : 37 ∉ x) :
    findPercent (a ++ (x ++ 37 :: y)) a.length = some (a.length + x.length) := by
  unfold findPercent
  rw [List.drop_left, List.findIdx?_append, findIdx?_percent_none h, List.findIdx?_cons]
  simp

theorem replacePercent_append (a y : Str) :
    replacePercent (a ++ 37 :: y) a.length = a ++ lit "%25" ++ y := by
  have hlen : a.length + 1 = (a ++ [37]).length := by rw [List.length_append, List.length_singleton]
  unfold replacePercent
  rw [List.take_left, List.append_cons a 37 y, hlen, List.drop_left]

/-- Without a `%` behind `pos` the loop ends. -/
theorem zoneStep_none {a y : Str} (h : 37 ∉ y) : zoneStep (a ++ y, a.length) = none := by
  unfold zoneStep
  rw [findPercent_append_none h]
  rfl

/-- A pass over the first `%` behind `pos`. -/
theorem zoneStep_some {a x y : Str} (h : 37 ∉ x) : zoneStep (a ++ (x ++ 37 :: y), a.length) =
    some (a ++ x ++ lit "%25" ++ y, (a ++ x ++ lit "%25").length) := by
  have hlen : (a ++ x ++ lit "%25").length = (a ++ x).length + 3 := List.length_append
  unfold zoneStep
  rw [findPercent_append_some h, Option.map_some, ← List.append_assoc, ← List.length_append,
    replacePercent_append, hlen]

theorem escaped_append (x y : Str) : escaped (x ++ y) = escaped x ++ escaped y :=
  substitute_append x y

theorem escaped_of_not_mem {x : Str} (h : 37 ∉ x) : escaped x = x := substitute_of_not_mem h

/-! ## The loop -/

/-- The state of the loop over `h` after the part `x`, with the part `y` to come. -/
def Scanned (h : Str) (s : Str × Nat) : Prop :=
  ∃ x y, h = x ++ y ∧ s = (escaped x ++ y, (escaped x).length)

/-- The first `%` of what is to come, or there is none. -/
theorem percent_cases (y : Str) : 37 ∉ y ∨ ∃ a b, y = a ++ 37 :: b ∧ 37 ∉ a := by
  by_cases h : 37 ∈ y
  · exact .inr (List.eq_append_cons_of_mem h)
  · exact .inl h

/-- A pass keeps the invariant: the part behind it has grown by a `%` and what precedes it. -/
theorem zoneStep_scanned {h : Str} {s s' : Str × Nat} (hs : Scanned h s)
    (hp : zoneStep s = some s') : Scanned h s' := by
  obtain ⟨x, y, rfl, rfl⟩ := hs
  rcases percent_cases y with hy | ⟨a, b, rfl, ha⟩
  · rw [zoneStep_none hy] at hp
    cases hp
  · rw [zoneStep_some ha] at hp
    cases hp
    have hesc : escaped (x ++ a ++ [37]) = escaped x ++ a ++ lit "%25" := by
      rw [escaped_append, escaped_append, escaped_of_not_mem ha]
      rfl
    refine ⟨x ++ a ++ [37], b, by simp, ?_⟩
    rw [hesc]

/-- A pass leaves less behind `pos`. -/
theorem zoneStep_shrinks {s s' : Str × Nat} (h : zoneStep s = some s') :
    s'.1.length - s'.2 < s.1.length - s.2 := by
  obtain ⟨p, hp, rfl⟩ := Option.map_eq_some_iff.mp h
  obtain ⟨hle, hlt⟩ := findPercent_bounds hp
  have hlen : (lit "%25").length = 3 := by decide
  simp only [replacePercent, List.length_append, List.length_take, List.length_drop, hlen]
  omega

/-- Where the loop ends, all of the host is escaped. -/
theorem Scanned.escaped_of_end {h : Str} {s : Str × Nat} (hs : Scanned h s)
    (hp : zoneStep s = none) : s.1 = escaped h := by
  obtain ⟨x, y, rfl, rfl⟩ := hs
  rcases percent_cases y with hy | ⟨a, b, rfl, ha⟩
  · rw [escaped_append, escaped_of_not_mem hy]
  · rw [zoneStep_some ha] at hp
    cases hp

/-- The loop ends, with the host escaped. -/
theorem zoneStep_ends (h : Str) : ∃ s ∈ eval zoneStep (h, 0), s.1 = escaped h := by
  have hinit : Scanned h (h, 0) := ⟨[], h, rfl, rfl⟩
  obtain ⟨s, hs, hend, hscan⟩ := eval_of_variant (fun _ _ => zoneStep_scanned)
    (fun _ _ => zoneStep_shrinks) hinit
  exact ⟨s, hs, hscan.escaped_of_end hend⟩

/-! ## `escapeZone` -/

theorem escapeZone_none {host : Str} {pos : Nat} (h : findPercent host pos = none) :
    escapeZone host pos = host := by
  rw [escapeZone]
  split
  · rfl
  · rename_i hp
    rw [h] at hp
    cases hp

theorem escapeZone_some {host : Str} {pos p : Nat} (h : findPercent host pos = some p) :
    escapeZone host pos = escapeZone (replacePercent host p) (p + 3) := by
  rw [escapeZone]
  split
  · rename_i hp
    rw [h] at hp
    cases hp
  · rename_i hp
    rw [h] at hp
    cases hp
    rfl

/-- `escapeZone` is what the loop ends with. -/
theorem escapeZone_eval {s s' : Str × Nat} (h : s' ∈ eval zoneStep s) :
    escapeZone s.1 s.2 = s'.1 := by
  obtain ⟨hr, hend⟩ := mem_eval.mp h
  have hk : ∀ u v : Str × Nat, escapeZone s.1 s.2 = escapeZone u.1 u.2 → zoneStep u = some v →
      escapeZone s.1 s.2 = escapeZone v.1 v.2 := by
    intro u v hu hv
    obtain ⟨p, hp, rfl⟩ := Option.map_eq_some_iff.mp hv
    rw [hu, escapeZone_some hp]
  rw [reaches_keep hk hr rfl, escapeZone_none (Option.map_eq_none_iff.mp hend)]

/-- **The loop replaces each `%` of the host by `%25`**, once. -/
theorem escapeZone_eq (host : Str) : escapeZone host 0 = escaped host := by
  obtain ⟨s, hs, he⟩ := zoneStep_ends host
  rw [← he]
  exact escapeZone_eval hs

theorem escapeZone_injective {h₁ h₂ : Str} (h : escapeZone h₁ 0 = escapeZone h₂ 0) : h₁ = h₂ := by
  rw [escapeZone_eq, escapeZone_eq] at h
  exact substitute_injective (r := lit "25") h

/-- What the loop makes of the host `h`, the text `r`:

* `ends`: the loop ends with it;
* `each`: it is `h` with `%25` for each `%`, and nothing else;
* `back`: with `%` for each `%25`, from left to right, it is `h`. -/
structure ZoneEscaped (h r : Str) : Prop where
  ends : ∃ pos, (r, pos) ∈ eval zoneStep (h, 0)
  each : r = h.flatMap fun b => if b = 37 then lit "%25" else [b]
  back : replaceAll (lit "%25") (lit "%") r = h

/-- **The loop ends for every host, has replaced each `%` once, and can be undone.** -/
theorem zone_escaped (h : Str) : ZoneEscaped h (escapeZone h 0) where
  ends := by
    obtain ⟨s, hs, -⟩ := zoneStep_ends h
    refine ⟨s.2, ?_⟩
    rw [show escapeZone h 0 = s.1 from escapeZone_eval hs]
    exact hs
  each := escapeZone_eq h
  back := by
    rw [escapeZone_eq]
    exact replaceAll_substitute (r := lit "25") h

end Session

end CommCore
