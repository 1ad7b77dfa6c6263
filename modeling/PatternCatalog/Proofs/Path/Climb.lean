/-
  PatternCatalog.Proofs.Path.Climb — paths that climb out of where they start.

  Steps climb some directories up (`climbs`) and lead down to names of their own (`ownNames`,
  `foldl_ownStep`). From a directory that is deep enough they arrive where they say (`foldl_below`).
  From nowhere a `..` has nothing to remove and is kept, but the next one removes it, so two of them
  cancel and the parity of the climb is what is left (`foldl_nowhere`).

  Hence a relative path may be normalized before it is joined to a directory exactly when it climbs
  one directory or none (`normalize_keeps_place_iff`). The path `../../x` is normalized to `x`, and
  that is another place (`two_climbs_cancel`).
-/

import PatternCatalog.Proofs.Path.Specifier

namespace PatternCatalog.Path

/-- How many directories steps climb above where they start. -/
def climbs : List Component → Nat
  | [] => 0
  | .parent :: steps => climbs steps + 1
  | .name _ :: steps => climbs steps - 1
  | _ :: steps => climbs steps

/-! ## What steps do -/

section

variable {steps own : List Component} (hsteps : ∀ c ∈ steps, Step c)

include hsteps

/-- Below a directory, steps take away what they climb out of and add names of their own. -/
theorem foldl_ownStep : steps.foldl ownStep own = ownNames steps ++ own.drop (climbs steps) := by
  induction steps generalizing own with
  | nil => rfl
  | cons c steps ih =>
    have hrest : ∀ d ∈ steps, Step d := fun d hd => hsteps d (List.mem_cons_of_mem _ hd)
    unfold ownNames
    rw [List.foldl_cons, List.foldl_cons, ih hrest, ih hrest]
    cases hsteps c List.mem_cons_self with
    | parent => simp only [ownStep, climbs, List.tail_nil, List.drop_nil, List.append_nil, List.drop_tail]
    | name =>
      rw [List.append_assoc]
      simp only [ownStep, climbs]
      cases climbs steps with
      | zero => rfl
      | succ k => simp

variable (hown : Names own)

include hown

/-- Steps that do not climb out of some names leave alone what is above them. -/
theorem foldl_below (h : climbs steps ≤ own.length) (base : List Component) :
    steps.foldl normalizeStep (own ++ base) = steps.foldl ownStep own ++ base := by
  induction steps generalizing own with
  | nil => rfl
  | cons c steps ih =>
    have hrest : ∀ d ∈ steps, Step d := fun d hd => hsteps d (List.mem_cons_of_mem _ hd)
    rw [List.foldl_cons, List.foldl_cons]
    cases hsteps c List.mem_cons_self with
    | parent =>
      simp only [climbs] at h
      cases own with
      | nil => exact absurd h (Nat.not_succ_le_zero _)
      | cons n own =>
        obtain ⟨s, rfl⟩ := hown n List.mem_cons_self
        exact ih hrest hown.tail (Nat.le_of_succ_le_succ h)
    | @name s =>
      simp only [climbs] at h
      refine ih hrest (hown.cons s) ?_
      rw [List.length_cons]
      omega

/-- Above the names there is one `..` or none, and each step out of them turns the one into the other. -/
theorem foldl_nowhere {kept : Nat} (hkept : kept < 2) : steps.foldl normalizeStep (own ++ List.replicate kept .parent) =
    steps.foldl ownStep own ++ List.replicate ((kept + (climbs steps - own.length)) % 2) .parent := by
  induction steps generalizing own kept with
  | nil =>
    have hsame : (kept + (climbs [] - own.length)) % 2 = kept := by
      simp only [climbs]
      omega
    rw [hsame]
    rfl
  | cons c steps ih =>
    have hrest : ∀ d ∈ steps, Step d := fun d hd => hsteps d (List.mem_cons_of_mem _ hd)
    rw [List.foldl_cons, List.foldl_cons]
    cases hsteps c List.mem_cons_self with
    | parent =>
      cases own with
      | cons n own =>
        obtain ⟨s, rfl⟩ := hown n List.mem_cons_self
        have hclimbs : climbs (.parent :: steps) - (Component.name s :: own).length = climbs steps - own.length := by
          simp only [climbs, List.length_cons]
          omega
        rw [hclimbs]
        exact ih hrest hown.tail hkept
      | nil =>
        have hturned : normalizeStep ([] ++ List.replicate kept .parent) .parent = [] ++ List.replicate (1 - kept) .parent := by
          rcases Nat.lt_succ_iff_lt_or_eq.mp hkept with h | rfl
          · rw [Nat.lt_one_iff.mp h]
            rfl
          · rfl
        have hparity : (1 - kept + (climbs steps - 0)) % 2 = (kept + (climbs (.parent :: steps) - 0)) % 2 := by
          simp only [climbs]
          omega
        rw [hturned, ih hrest hown (by omega), List.length_nil, hparity]
        rfl
    | @name s =>
      have hclimbs : climbs steps - (Component.name s :: own).length = climbs (.name s :: steps) - own.length := by
        simp only [climbs, List.length_cons]
        omega
      rw [← hclimbs]
      exact ih hrest (hown.cons s) hkept

end

theorem ownNames_names {steps : List Component} (hsteps : ∀ c ∈ steps, Step c) : Names (ownNames steps) := by
  unfold ownNames
  suffices hrun : ∀ own, Names own → Names (steps.foldl ownStep own) from hrun [] fun c hc => nomatch hc
  induction steps with
  | nil => exact fun own hown => hown
  | cons c steps ih =>
    intro own hown
    refine ih (fun d hd => hsteps d (List.mem_cons_of_mem _ hd)) _ ?_
    cases hsteps c List.mem_cons_self with
    | parent => exact fun d hd => hown d (List.mem_of_mem_tail hd)
    | @name s => exact hown.cons s

theorem foldl_directory {d : Path} {names : List String} (hd : d.components = .root :: names.map .name) :
    d.components.foldl normalizeStep [] = (names.map .name).reverse ++ [.root] := by
  rw [hd, List.foldl_cons]
  exact foldl_names (names_map names) [.root]

/-! ## Relative paths -/

section

variable {p : Path} (hp : p.isAbsolute = false)

include hp

theorem head?_of_relative : p.text.toList.head? ≠ some '/' := by
  rw [isAbsolute, beq_eq_false_iff_ne] at hp
  exact hp

theorem climbs_components : climbs p.components = climbs (innerComponents p.text.toList) := by
  rcases componentsOf_relative (head?_of_relative hp) with h | h
  · rw [components, h]
  · rw [components, h]
    rfl

/-- What a relative path is normalized to: of its climb the parity, and its own names. -/
theorem components_normalize_relative : p.normalize.components =
    List.replicate (climbs p.components % 2) .parent ++ (ownNames (innerComponents p.text.toList)).reverse := by
  have hsteps : ∀ c ∈ innerComponents p.text.toList, Step c := fun c hc => step_of_mem_innerComponents hc
  have hnone : Names [] := fun c hc => nomatch hc
  have hfold := foldl_nowhere hsteps hnone Nat.two_pos
  rw [List.replicate_zero, List.append_nil, List.length_nil, Nat.zero_add, Nat.sub_zero, ← climbs_components hp] at hfold
  rw [components_normalize, normalizeComponents, components, foldl_componentsOf (head?_of_relative hp), hfold, List.reverse_append,
    List.reverse_replicate]
  rfl

theorem step_normalize_relative : ∀ c ∈ p.normalize.components, Step c := by
  intro c hc
  have hkept : Kept p.normalize.components.reverse := by
    rw [components_normalize, normalizeComponents, List.reverse_reverse]
    exact kept_componentsOf _
  refine (hkept.mem (List.mem_reverse.mpr hc)).resolve_left ?_
  rintro rfl
  rw [components_normalize_relative hp] at hc
  rcases List.mem_append.mp hc with hc | hc
  · cases List.eq_of_mem_replicate hc
  · obtain ⟨s, hs⟩ := ownNames_names (fun d hd => step_of_mem_innerComponents hd) _ (List.mem_reverse.mp hc)
    cases hs

/-! ## Relative paths below a directory -/

variable {d : Path} {names : List String} (hd : d.components = .root :: names.map .name)

include hd

variable (henough : climbs p.components ≤ names.length)

include henough

/-- Where a path leads from a directory that is deep enough. -/
theorem foldl_join : (d.join p.text).components.foldl normalizeStep [] =
    ownNames (innerComponents p.text.toList) ++ (names.map .name).reverse.drop (climbs p.components) ++ [.root] := by
  have hsteps : ∀ c ∈ innerComponents p.text.toList, Step c := fun c hc => step_of_mem_innerComponents hc
  rw [climbs_components hp] at henough ⊢
  rw [normalize_join d (head?_of_relative hp), foldl_directory hd,
    foldl_below hsteps ((names_map names).reverse) (by simpa using henough), foldl_ownStep hsteps]

/-- Where the path leads that it is normalized to. -/
theorem foldl_join_normalize : (d.join p.normalize.text).components.foldl normalizeStep [] =
    ownNames (innerComponents p.text.toList) ++ (names.map .name).reverse.drop (climbs p.components % 2) ++ [.root] := by
  have hown := ownNames_names fun c (hc : c ∈ innerComponents p.text.toList) => step_of_mem_innerComponents hc
  have hup : (List.replicate (climbs p.components % 2) Component.parent).foldl normalizeStep ((names.map .name).reverse ++ [.root]) =
      (names.map .name).reverse.drop (climbs p.components % 2) ++ [.root] := by
    rcases Nat.mod_two_eq_zero_or_one (climbs p.components) with hparity | hparity
    · rw [hparity]
      rfl
    · have hnames := (names_map names).reverse
      have hlength : (names.map Component.name).reverse.length = names.length := by simp
      rw [hparity]
      cases hrev : (names.map Component.name).reverse with
      | nil =>
        rw [hrev] at hlength
        rw [← hlength, List.length_nil] at henough
        omega
      | cons c rest =>
        obtain ⟨s, rfl⟩ := hnames c (hrev ▸ List.mem_cons_self)
        rfl
  rw [normalize_join d (head?_of_steps (step_normalize_relative hp)), foldl_directory hd,
    innerComponents_of_steps (step_normalize_relative hp), ← components, components_normalize_relative hp, List.foldl_append,
    hup, foldl_names hown.reverse, List.reverse_reverse, List.append_assoc]

/-- A relative path may be normalized before it is joined to a directory that it does not climb out of, exactly
when it climbs at most one directory. -/
theorem normalize_keeps_place_iff :
    (d.join p.text).normalize = (d.join p.normalize.text).normalize ↔ climbs p.components ≤ 1 := by
  rw [normalize_eq_iff, components_normalize, components_normalize, normalizeComponents, normalizeComponents,
    List.reverse_inj, foldl_join hp hd henough, foldl_join_normalize hp hd henough, List.append_cancel_right_eq,
    List.append_cancel_left_eq]
  constructor
  · intro h
    have hlength := congrArg List.length h
    simp only [List.length_drop, List.length_reverse, List.length_map] at hlength
    omega
  · intro h
    rw [Nat.mod_eq_of_lt (Nat.lt_succ_of_le h)]

end

/-- The path `../x` leads from `/a/b` to `/a/x`, normalized or not. -/
theorem one_climb_keeps_place :
    ((⟨"/a/b"⟩ : Path).join "../x").normalize = ((⟨"/a/b"⟩ : Path).join (normalize ⟨"../x"⟩).text).normalize :=
  have hrelative : isAbsolute ⟨"../x"⟩ = false := by decide
  have hdirectory : components ⟨"/a/b"⟩ = .root :: ["a", "b"].map .name := by decide
  (normalize_keeps_place_iff hrelative hdirectory (by decide)).mpr (by decide)

/-- The path `../../x` climbs both directories of `/a/b`, but is normalized to `x`, which stays in them. -/
theorem two_climbs_cancel : components ⟨"/a/b"⟩ = .root :: ["a", "b"].map .name ∧ climbs (components ⟨"../../x"⟩) = 2 ∧
    normalize ⟨"../../x"⟩ = ⟨"x"⟩ ∧ ((⟨"/a/b"⟩ : Path).join "../../x").normalize = ⟨"/x"⟩ ∧
    ((⟨"/a/b"⟩ : Path).join (normalize ⟨"../../x"⟩).text).normalize = ⟨"/a/b/x"⟩ := by
  decide

end PatternCatalog.Path
