/-
  PatternCatalog.Proofs.Text.Octets — places of a text.

  The places of a text are the octets between its characters (`isSome_splitOctets?_iff`), its valid
  positions (`isSome_splitOctets?_iff_isValid`). A part that is found at a place stands there, and
  nowhere before (`offset?_some`).
-/

import Mathlib.Data.List.Infix
import PatternCatalog.Text.Octets

namespace PatternCatalog.Text

theorem octets_toList (s : String) : octets s.toList = s.utf8ByteSize := by
  have hlist : ∀ t : List Char, (String.ofList t).utf8ByteSize = octets t := by
    intro t
    induction t with
    | nil => rfl
    | cons c t ih =>
      have hcons : String.ofList (c :: t) = String.singleton c ++ String.ofList t := String.toList_injective (by simp)
      rw [hcons, String.utf8ByteSize_append, String.utf8ByteSize_singleton, ih, octets_cons]
  rw [← hlist, String.ofList_toList]

theorem octets_lt_of_suffix {r s : List Char} (h : r <:+ s) (hlt : r.length < s.length) : octets r < octets s := by
  obtain ⟨u, rfl⟩ := h
  cases u with
  | nil => exact absurd hlt (Nat.lt_irrefl _)
  | cons c u =>
    have hc := c.utf8Size_pos
    rw [octets_append, octets_cons]
    omega

theorem splitOctets?_append (u v : List Char) : splitOctets? (octets u) (u ++ v) = some (u, v) := by
  induction u with
  | nil => exact splitOctets?_zero v
  | cons c u ih =>
    have hc := c.utf8Size_pos
    have hoctets : octets (c :: u) = (c.utf8Size + octets u - 1) + 1 := by rw [octets_cons]; omega
    have hrest : c.utf8Size + octets u - 1 + 1 - c.utf8Size = octets u := by omega
    rw [hoctets, List.cons_append, splitOctets?, if_pos (by omega), hrest, ih]
    rfl

theorem splitOctets?_some {n : Nat} {s u v : List Char} (h : splitOctets? n s = some (u, v)) : s = u ++ v ∧ octets u = n := by
  fun_induction splitOctets? n s generalizing u with
  | case1 s =>
    obtain ⟨rfl, rfl⟩ := Prod.mk.inj (Option.some.inj h)
    exact ⟨rfl, rfl⟩
  | case2 => cases h
  | case3 n c s hc ih =>
    obtain ⟨⟨u', v'⟩, hsplit, heq⟩ := Option.map_eq_some_iff.mp h
    obtain ⟨rfl, rfl⟩ := Prod.mk.inj heq
    obtain ⟨rfl, hu⟩ := ih hsplit
    refine ⟨rfl, ?_⟩
    rw [octets_cons, hu]
    omega
  | case4 => cases h

/-- The places of a text are the octets between its characters. -/
theorem isSome_splitOctets?_iff {n : Nat} {s : List Char} : (splitOctets? n s).isSome = true ↔ ∃ u v, s = u ++ v ∧ octets u = n := by
  constructor
  · intro h
    obtain ⟨⟨u, v⟩, hsplit⟩ := Option.isSome_iff_exists.mp h
    exact ⟨u, v, splitOctets?_some hsplit⟩
  · rintro ⟨u, v, rfl, rfl⟩
    rw [splitOctets?_append]
    rfl

theorem offset?_some {part s : List Char} {n : Nat} (h : offset? part s = some n) (hpart : part ≠ []) :
    ∃ u r, s = u ++ (part ++ r) ∧ octets u = n ∧ ¬ part <:+: u := by
  fun_induction offset? part s generalizing n with
  | case1 hnil => exact absurd hnil hpart
  | case2 => cases h
  | case3 c s hprefix =>
    obtain ⟨r, hr⟩ := List.isPrefixOf_iff_prefix.mp hprefix
    refine ⟨[], r, hr.symm, Option.some.inj h, fun hinfix => hpart (List.infix_nil.mp hinfix)⟩
  | case4 c s hprefix ih =>
    obtain ⟨m, hm, rfl⟩ := Option.map_eq_some_iff.mp h
    obtain ⟨u, r, rfl, rfl, hu⟩ := ih hm
    refine ⟨c :: u, r, rfl, rfl, fun hinfix => ?_⟩
    rcases List.infix_cons_iff.mp hinfix with hstart | hinner
    · exact hprefix (List.isPrefixOf_iff_prefix.mpr (hstart.trans ⟨part ++ r, rfl⟩))
    · exact hu hinner

theorem offset?_none {part s : List Char} (h : offset? part s = none) (hpart : part ≠ []) : ¬ part <:+: s := by
  fun_induction offset? part s with
  | case1 => cases h
  | case2 => exact fun hinfix => hpart (List.infix_nil.mp hinfix)
  | case3 => cases h
  | case4 c s hprefix ih =>
    intro hinfix
    rcases List.infix_cons_iff.mp hinfix with hstart | hinner
    · exact hprefix (List.isPrefixOf_iff_prefix.mpr hstart)
    · exact ih (Option.map_eq_none_iff.mp h) hinner

theorem isSome_splitOctets?_iff_isValid {s : String} {n : Nat} :
    (splitOctets? n s.toList).isSome = true ↔ (⟨n⟩ : String.Pos.Raw).IsValid s := by
  rw [isSome_splitOctets?_iff, String.Pos.Raw.isValid_iff_exists_append]
  have hend (u : String) : u.rawEndPos = ⟨octets u.toList⟩ := by rw [octets_toList]; rfl
  constructor
  · rintro ⟨u, v, hs, rfl⟩
    refine ⟨String.ofList u, String.ofList v, String.toList_injective (by simpa using hs), ?_⟩
    rw [hend, String.toList_ofList]
  · rintro ⟨u, v, rfl, hn⟩
    rw [hend, String.Pos.Raw.mk.injEq] at hn
    exact ⟨u.toList, v.toList, String.toList_append, hn.symm⟩

end PatternCatalog.Text
