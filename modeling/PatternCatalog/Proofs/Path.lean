/-
  PatternCatalog.Proofs.Path — the directory of a path, and paths in a directory.

  Both are made of path texts, yet they depend on components alone: the directory of a path has
  all its components but the last (`components_parent`), and a relative step below a directory
  leads on from where the components of the directory lead (`normalize_join`).
-/

import Mathlib.Data.List.TakeWhile
import PatternCatalog.Path.Normal

namespace PatternCatalog.Path

/-! ## The last step of a text -/

theorem splitLast_spec (s : List Char) : (splitLast s).1 ++ (splitLast s).2 = s ∧ '/' ∉ (splitLast s).2 ∧
    ∃ cs, Before (splitLast s).1 cs := by
  have hs : (s.reverse.dropWhile (· != '/')).reverse ++ (s.reverse.takeWhile (· != '/')).reverse = s := by
    rw [← List.reverse_append, List.takeWhile_append_dropWhile, List.reverse_reverse]
  have hbefore : (splitLast s).1 = (s.reverse.dropWhile (· != '/')).reverse := by
    have hlength := congrArg List.length hs
    rw [List.length_append] at hlength
    unfold splitLast
    dsimp only
    rw [← hlength, Nat.add_sub_cancel]
    exact (congrArg (List.take _) hs.symm).trans (List.take_left' rfl)
  rw [hbefore]
  refine ⟨hs, fun h => ?_, ?_⟩
  · simpa using List.mem_takeWhile_imp (List.mem_reverse.mp h)
  · cases hdrop : s.reverse.dropWhile (· != '/') with
    | nil => exact ⟨[], .nothing⟩
    | cons c rest =>
      have hc := List.head?_dropWhile_not (· != '/') s.reverse
      rw [hdrop] at hc
      have hslash : c = '/' := by simpa using hc
      rw [hslash, List.reverse_cons]
      exact ⟨_, .slash rest.reverse⟩

/-! ## Slashes at the end -/

theorem componentsOf_slash (s : List Char) : componentsOf (s ++ ['/']) = if s = [] then [.root] else componentsOf s := by
  rw [componentsOf_append]
  exact List.append_nil _

theorem componentsOf_trimBack (s : List Char) : componentsOf (trimBack s).reverse = componentsOf s.reverse := by
  fun_induction trimBack s with
  | case1 c s ih =>
    have hne : (c :: s).reverse ≠ [] := List.reverse_ne_nil_iff.mpr (List.cons_ne_nil c s)
    have hslash : ('/' :: c :: s).reverse = (c :: s).reverse ++ ['/'] := List.reverse_cons
    rw [ih, hslash, componentsOf_slash, if_neg hne]
  | case2 s ih =>
    have hdot : ('.' :: '/' :: s).reverse = s.reverse ++ '/' :: ['.'] := by simp
    rw [ih, hdot, List.reverse_cons, componentsOf_slash, componentsOf_append]
    exact (List.append_nil _).symm
  | case3 s => rfl

theorem componentsOf_trimTrailing (s : List Char) : componentsOf (trimTrailing s) = componentsOf s := by
  rw [trimTrailing, componentsOf_trimBack, List.reverse_reverse]

/-- What is left after trimming ends in no slash and no `.` step, unless it is the root. -/
theorem trimBack_cases (s : List Char) :
    trimBack s = ['/'] ∨ (∀ r, trimBack s ≠ '/' :: r) ∧ ∀ r, trimBack s ≠ '.' :: '/' :: r := by
  fun_induction trimBack s with
  | case1 c s ih => exact ih
  | case2 s ih => exact ih
  | case3 s hslash hdot =>
    by_cases hroot : s = ['/']
    · exact .inl hroot
    · refine .inr ⟨fun r hr => ?_, hdot⟩
      cases r with
      | nil => exact hroot hr
      | cons c r => exact hslash c r hr

theorem trimTrailing_cases (s : List Char) : trimTrailing s = ['/'] ∨
    (∀ t, trimTrailing s ≠ t ++ ['/']) ∧ ∀ t, trimTrailing s ≠ t ++ ['/', '.'] := by
  rcases trimBack_cases s.reverse with hroot | ⟨hslash, hdot⟩
  · exact .inl (by rw [trimTrailing, hroot]; rfl)
  · refine .inr ⟨fun t ht => hslash t.reverse ?_, fun t ht => hdot t.reverse ?_⟩
    · rw [← List.reverse_reverse (trimBack s.reverse), ← trimTrailing, ht, List.reverse_append]
      rfl
    · rw [← List.reverse_reverse (trimBack s.reverse), ← trimTrailing, ht, List.reverse_append]
      rfl

/-! ## Directories -/

theorem Before.components {s : List Char} {cs : List Component} (h : Before s cs) : Path.componentsOf s = cs := by
  cases h with
  | nothing => rfl
  | slash s => exact componentsOf_slash s

theorem innerComponent?_eq_none {s : List Char} (h : innerComponent? s = none) : s = [] ∨ s = ['.'] := by
  unfold innerComponent? at h
  split at h
  · next hs => exact hs
  · split at h <;> cases h

/-- After trimming, the last step of a text is its last component. -/
theorem components_dropLast {s : List Char} (htrim : s = ['/'] ∨ (∀ t, s ≠ t ++ ['/']) ∧ ∀ t, s ≠ t ++ ['/', '.'])
    (hempty : componentsOf s ≠ []) (hroot : componentsOf s ≠ [.root]) :
    componentsOf (splitLast s).1 = (componentsOf s).dropLast := by
  obtain ⟨hs, hslash, cs, hbefore⟩ := splitLast_spec s
  generalize (splitLast s).1 = before at hs hbefore
  generalize (splitLast s).2 = last at hs hslash
  have hall := hbefore.componentsOf hslash
  rw [hs] at hall
  rcases htrim with rfl | ⟨hnoslash, hnodot⟩
  · exact absurd rfl hroot
  · rw [hbefore.components, hall]
    split
    · next hdot =>
      cases hbefore with
      | nothing => rfl
      | slash s => exact absurd hdot.1 (List.append_ne_nil_of_right_ne_nil s (List.cons_ne_nil _ _))
    · next hdot =>
      cases hlast : innerComponent? last with
      | some c => exact List.dropLast_concat.symm
      | none =>
        exfalso
        rcases innerComponent?_eq_none hlast with rfl | rfl
        · rw [List.append_nil] at hs
          cases hbefore with
          | nothing => exact hempty (by rw [← hs]; rfl)
          | slash t => exact hnoslash t hs.symm
        · cases hbefore with
          | nothing => exact hdot ⟨rfl, rfl⟩
          | slash t => exact hnodot t (by rw [← hs, List.append_assoc]; rfl)

/-- A root is last only where it is alone. -/
theorem componentsOf_getLast?_root {s : List Char} (h : (componentsOf s).getLast? = some .root) : componentsOf s = [.root] := by
  obtain ⟨head, hhead, steps, hs, hsteps⟩ := componentsOf_cases s
  rw [hs] at h ⊢
  rcases List.eq_nil_or_concat steps with rfl | ⟨steps, c, rfl⟩
  · rcases hhead with rfl | rfl | rfl
    · cases h
    · rfl
    · cases h
  · rw [List.concat_eq_append] at h hsteps
    rw [← List.append_assoc, List.getLast?_concat] at h
    have hroot := hsteps c List.mem_concat_self
    rw [Option.some.inj h] at hroot
    cases hroot

/-- A path is its directory and its last component. -/
theorem components_parent (p : Path) : (p.parent?.getD ⟨""⟩).components = p.components.dropLast := by
  have hdirectory : p.components ≠ [] → p.components ≠ [.root] →
      componentsOf (trimTrailing (splitLast (trimTrailing p.text.toList)).1) = p.components.dropLast := by
    intro hempty hroot
    have htrim := componentsOf_trimTrailing p.text.toList
    rw [componentsOf_trimTrailing, components_dropLast (trimTrailing_cases _), htrim]
    · rfl
    · rwa [htrim]
    · rwa [htrim]
  unfold parent?
  cases hlast : p.components.getLast? with
  | none =>
    rw [List.getLast?_eq_none_iff.mp hlast]
    rfl
  | some c =>
    have hempty : p.components ≠ [] := fun h => by rw [h] at hlast; cases hlast
    cases c with
    | root =>
      rw [show p.components = [.root] from componentsOf_getLast?_root hlast]
      rfl
    | _ =>
      rw [← hdirectory hempty fun h => by rw [h] at hlast; cases hlast]
      exact congrArg componentsOf String.toList_ofList

/-! ## Paths in a directory -/

theorem pushText_components {base step : List Char} (hstep : step.head? ≠ some '/') :
    (pushText base step = step ∧ base = []) ∨ componentsOf (pushText base step) = componentsOf base ++ innerComponents step := by
  rw [pushText, if_neg hstep]
  by_cases hbase : base = []
  · rw [if_pos (.inl hbase), hbase]
    exact .inl ⟨rfl, rfl⟩
  · refine .inr ?_
    by_cases hslash : base.getLast? = some '/'
    · obtain ⟨s, rfl⟩ := List.getLast?_eq_some_iff.mp hslash
      rw [if_pos (.inr hslash), List.append_assoc, List.singleton_append, componentsOf_append, componentsOf_slash]
    · rw [if_neg (not_or.mpr ⟨hbase, hslash⟩), componentsOf_append, if_neg hbase]

/-- A relative path has the components of its steps, but for a `.` that it may start with. -/
theorem componentsOf_relative {s : List Char} (hs : s.head? ≠ some '/') :
    componentsOf s = innerComponents s ∨ componentsOf s = .current :: innerComponents s := by
  have hstep : ∀ {t : List Char}, '/' ∉ t →
      componentsOf t = innerComponents t ∨ componentsOf t = .current :: innerComponents t := by
    intro t ht
    rw [componentsOf_step ht, innerComponents_step ht]
    split
    · next hdot => rw [hdot]; exact .inr rfl
    · exact .inl rfl
  by_cases hslash : '/' ∈ s
  · obtain ⟨first, rest, rfl, hfirst⟩ := List.eq_append_cons_of_mem hslash
    have hne : first ≠ [] := fun hnil => hs (by rw [hnil]; rfl)
    rw [componentsOf_append, if_neg hne, innerComponents_append]
    rcases hstep hfirst with h | h
    · exact .inl (by rw [h])
    · exact .inr (by rw [h, List.cons_append])
  · exact hstep hslash

/-- Normalization makes nothing of a step that stays where it is. -/
theorem foldl_componentsOf {s : List Char} (hs : s.head? ≠ some '/') :
    (componentsOf s).foldl normalizeStep [] = (innerComponents s).foldl normalizeStep [] := by
  rcases componentsOf_relative hs with h | h
  · rw [h]
  · rw [h]
    rfl

theorem normalize_join (p : Path) {step : String} (hstep : step.toList.head? ≠ some '/') :
    (p.join step).components.foldl normalizeStep [] =
      (innerComponents step.toList).foldl normalizeStep (p.components.foldl normalizeStep []) := by
  have hpush : (p.join step).components = componentsOf (pushText p.text.toList step.toList) :=
    congrArg componentsOf String.toList_ofList
  rw [hpush]
  obtain ⟨htext, hempty⟩ | hcomponents := @pushText_components p.text.toList _ hstep
  · rw [htext, components, hempty, foldl_componentsOf hstep]
    rfl
  · rw [hcomponents, List.foldl_append]
    rfl

/-! ## Steps and names -/

theorem Kept.mem {kept : List Component} (h : Kept kept) {c : Component} (hc : c ∈ kept) : c = .root ∨ Step c := by
  induction h with
  | nil => cases hc
  | root => exact .inl (List.mem_singleton.mp hc)
  | parent => exact .inr (List.mem_singleton.mp hc ▸ .parent)
  | rootParent =>
    rcases List.mem_cons.mp hc with rfl | hc
    · exact .inr .parent
    · exact .inl (List.mem_singleton.mp hc)
  | name hs _ ih =>
    rcases List.mem_cons.mp hc with rfl | hc
    · exact .inr hs
    · exact ih hc

section

variable {s : List Char} (hsteps : ∀ c ∈ componentsOf s, Step c)

include hsteps

theorem head?_of_steps : s.head? ≠ some '/' := by
  intro hhead
  obtain ⟨rest, rfl⟩ := List.head?_eq_some_iff.mp hhead
  have hroot : Component.root ∈ componentsOf ('/' :: rest) := by
    rw [← List.nil_append ('/' :: rest), componentsOf_append]
    exact List.mem_cons_self
  cases hsteps _ hroot

theorem innerComponents_of_steps : innerComponents s = componentsOf s := by
  rcases componentsOf_relative (head?_of_steps hsteps) with h | h
  · exact h.symm
  · rw [h] at hsteps
    cases hsteps _ List.mem_cons_self

end

/-- Nothing but names. -/
def Names (own : List Component) : Prop := ∀ c ∈ own, ∃ s, c = .name s

theorem Names.cons {own : List Component} (h : Names own) (s : String) : Names (.name s :: own) := by
  intro c hc
  rcases List.mem_cons.mp hc with rfl | hc
  · exact ⟨s, rfl⟩
  · exact h c hc

theorem Names.tail {c : Component} {own : List Component} (h : Names (c :: own)) : Names own :=
  fun d hd => h d (List.mem_cons_of_mem c hd)

theorem names_map (names : List String) : Names (names.map .name) := by
  intro c hc
  obtain ⟨s, -, rfl⟩ := List.mem_map.mp hc
  exact ⟨s, rfl⟩

theorem Names.reverse {own : List Component} (h : Names own) : Names own.reverse :=
  fun c hc => h c (List.mem_reverse.mp hc)

/-- Names are kept as they come. -/
theorem foldl_names {names : List Component} (h : Names names) (kept : List Component) :
    names.foldl normalizeStep kept = names.reverse ++ kept := by
  induction names generalizing kept with
  | nil => rfl
  | cons c names ih =>
    obtain ⟨s, rfl⟩ := h c List.mem_cons_self
    rw [List.foldl_cons, ih h.tail, List.reverse_cons, List.append_assoc]
    rfl

end PatternCatalog.Path
