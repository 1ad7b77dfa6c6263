/-
  PatternCatalog.Path.Normal — paths in normal form.

  A path text falls apart at its slashes (`componentsOf_append`). Normalization keeps components
  of a simple shape (`Kept`): names, after a root or none and a `..` or none. The text that is made
  of such components means them again (`componentsOf_textOf`), so that normalizing a path text
  is normalizing its components (`components_normalize`).
-/

import PatternCatalog.Path

namespace PatternCatalog.Path

/-! ## Texts and their components -/

/-- The components of the steps after a slash. -/
def innerComponents (s : List Char) : List Component := (s.splitOn '/').filterMap innerComponent?

theorem innerComponents_append (s t : List Char) :
    innerComponents (s ++ '/' :: t) = innerComponents s ++ innerComponents t := by
  rw [innerComponents, List.splitOn_append_cons_self, List.filterMap_append]
  rfl

theorem innerComponents_step {s : List Char} (h : '/' ∉ s) : innerComponents s = (innerComponent? s).toList := by
  rw [innerComponents, List.splitOn_eq_singleton h, List.filterMap_cons, List.filterMap_nil]
  cases innerComponent? s <;> rfl

theorem componentsOf_step {s : List Char} (h : '/' ∉ s) :
    componentsOf s = if s = ['.'] then [.current] else (innerComponent? s).toList := by
  unfold componentsOf
  rw [List.splitOn_eq_singleton h]
  dsimp only
  split
  · rfl
  · split
    · next hs => rw [hs]; rfl
    · exact List.append_nil _

/-- What stands before a slash stands for itself, or for the root. -/
theorem componentsOf_append (s t : List Char) :
    componentsOf (s ++ '/' :: t) = (if s = [] then [.root] else componentsOf s) ++ innerComponents t := by
  have ht : t.splitOn '/' ≠ [] := List.splitOn_ne_nil '/' t
  unfold componentsOf innerComponents
  rw [List.splitOn_append_cons_self]
  cases hs : s.splitOn '/' with
  | nil => exact absurd hs (List.splitOn_ne_nil '/' s)
  | cons first rest =>
    have hjoin : ['/'].intercalate (first :: rest) = s := hs ▸ List.intercalate_splitOn '/'
    dsimp only [List.cons_append]
    rw [List.filterMap_append]
    by_cases hcurrent : first = ['.']
    · have hne : s ≠ [] := by
        rintro rfl
        rw [List.splitOn_nil] at hs
        rw [← (List.cons.inj hs).1] at hcurrent
        cases hcurrent
      rw [if_pos hcurrent, if_pos hcurrent, if_neg hne, List.append_assoc]
    · rw [if_neg hcurrent, if_neg hcurrent]
      by_cases hfirst : first = []
      · subst hfirst
        rw [if_pos rfl, if_pos rfl, if_neg fun hnil => ht (List.append_eq_nil_iff.mp hnil).2]
        cases rest with
        | nil =>
          have hnil : s = [] := hjoin.symm
          rw [if_pos hnil]
          rfl
        | cons step rest =>
          have hne : s ≠ [] := by rw [← hjoin]; exact List.cons_ne_nil _ _
          rw [if_neg hne, if_neg (List.cons_ne_nil _ _), List.append_assoc]
      · have hne : s ≠ [] := by
          rintro rfl
          rw [List.splitOn_nil] at hs
          exact hfirst (List.cons.inj hs).1.symm
        rw [if_neg hfirst, if_neg hfirst, if_neg hne, List.append_assoc]

/-! ## Steps -/

/-- What a step between slashes can be. -/
inductive Step : Component → Prop where
  | parent : Step .parent
  | name {s : String} : '/' ∉ s.toList → s.toList ≠ [] → s.toList ≠ ['.'] → s.toList ≠ ['.', '.'] → Step (.name s)

theorem Step.innerComponent? {c : Component} (h : Step c) : Path.innerComponent? c.text.toList = some c := by
  cases h with
  | parent => rfl
  | @name s _ hne hcurrent hparent =>
    rw [Path.innerComponent?, Component.text, if_neg (not_or.mpr ⟨hne, hcurrent⟩), if_neg hparent, String.ofList_toList]

theorem Step.noSlash {c : Component} (h : Step c) : '/' ∉ c.text.toList := by
  cases h with
  | parent => decide
  | name hslash => exact hslash

theorem step_of_innerComponent? {s : List Char} {c : Component} (hslash : '/' ∉ s) (h : innerComponent? s = some c) :
    Step c := by
  unfold innerComponent? at h
  split at h
  · cases h
  · next hne =>
    split at h
    · cases h
      exact .parent
    · next hparent =>
      cases h
      rw [not_or] at hne
      exact .name (by rwa [String.toList_ofList]) (by rw [String.toList_ofList]; exact hne.1)
        (by rw [String.toList_ofList]; exact hne.2) (by rwa [String.toList_ofList])

theorem noSlash_of_mem_splitOn {s step : List Char} (h : step ∈ s.splitOn '/') : '/' ∉ step := by
  induction s generalizing step with
  | nil =>
    rw [List.splitOn_nil, List.mem_singleton] at h
    rw [h]
    exact List.not_mem_nil
  | cons c s ih =>
    rw [List.splitOn_cons_eq_if_modifyHead] at h
    split at h
    · rcases List.mem_cons.mp h with rfl | h
      · exact List.not_mem_nil
      · exact ih h
    · next hc =>
      cases hs : s.splitOn '/' with
      | nil => exact absurd hs (List.splitOn_ne_nil '/' s)
      | cons first rest =>
        rw [hs] at h ih
        rcases List.mem_cons.mp h with rfl | h
        · intro hmem
          rcases List.mem_cons.mp hmem with hslash | hmem
          · exact hc (by rw [← hslash]; rfl)
          · exact ih List.mem_cons_self hmem
        · exact ih (List.mem_cons_of_mem _ h)

theorem step_of_mem_innerComponents {s : List Char} {c : Component} (h : c ∈ innerComponents s) : Step c := by
  obtain ⟨step, hstep, hc⟩ := List.mem_filterMap.mp h
  exact step_of_innerComponent? (noSlash_of_mem_splitOn hstep) hc

/-- Only at its front a path has what is no step. -/
theorem componentsOf_cases (s : List Char) :
    ∃ head, (head = [] ∨ head = [.root] ∨ head = [.current]) ∧ ∃ steps, componentsOf s = head ++ steps ∧ ∀ c ∈ steps, Step c := by
  unfold componentsOf
  cases hs : s.splitOn '/' with
  | nil => exact ⟨[], .inl rfl, [], rfl, fun c hc => nomatch hc⟩
  | cons first rest =>
    have hrest : ∀ c ∈ rest.filterMap innerComponent?, Step c := by
      intro c hc
      obtain ⟨step, hstep, hc⟩ := List.mem_filterMap.mp hc
      exact step_of_innerComponent? (noSlash_of_mem_splitOn (hs ▸ List.mem_cons_of_mem _ hstep)) hc
    dsimp only
    split
    · exact ⟨[.current], .inr (.inr rfl), _, rfl, hrest⟩
    · split
      · split
        · exact ⟨[], .inl rfl, _, rfl, hrest⟩
        · exact ⟨[.root], .inr (.inl rfl), _, rfl, hrest⟩
      · refine ⟨[], .inl rfl, _, rfl, fun c hc => ?_⟩
        rcases List.mem_append.mp hc with hc | hc
        · exact step_of_innerComponent? (noSlash_of_mem_splitOn (hs ▸ List.mem_cons_self)) (Option.mem_toList.mp hc)
        · exact hrest c hc

/-! ## Normal form -/

/-- What normalization keeps, newest component first. -/
inductive Kept : List Component → Prop where
  | nil : Kept []
  | root : Kept [.root]
  | parent : Kept [.parent]
  | rootParent : Kept [.parent, .root]
  | name {s : String} {kept : List Component} : Step (.name s) → Kept kept → Kept (.name s :: kept)

theorem Kept.tail {c : Component} {kept : List Component} (h : Kept (c :: kept)) : Kept kept := by
  cases h with
  | root => exact .nil
  | parent => exact .nil
  | rootParent => exact .root
  | name _ h => exact h

theorem Kept.step {kept : List Component} (h : Kept kept) {c : Component} (hc : Step c) : Kept (normalizeStep kept c) := by
  cases hc with
  | parent =>
    cases h with
    | nil => exact .parent
    | root => exact .rootParent
    | parent => exact .nil
    | rootParent => exact .root
    | name _ h => exact h
  | name hslash hne hcurrent hparent => exact .name (.name hslash hne hcurrent hparent) h

theorem Kept.steps {kept cs : List Component} (h : Kept kept) (hcs : ∀ c ∈ cs, Step c) :
    Kept (cs.foldl normalizeStep kept) := by
  induction cs generalizing kept with
  | nil => exact h
  | cons c cs ih => exact ih (h.step (hcs c List.mem_cons_self)) fun d hd => hcs d (List.mem_cons_of_mem _ hd)

theorem kept_componentsOf (s : List Char) : Kept ((componentsOf s).foldl normalizeStep []) := by
  obtain ⟨head, hhead, steps, hs, hsteps⟩ := componentsOf_cases s
  rw [hs, List.foldl_append]
  refine Kept.steps ?_ hsteps
  rcases hhead with rfl | rfl | rfl
  · exact .nil
  · exact .root
  · exact .nil

/-- Components in normal form are kept as they are. -/
theorem Kept.foldl_reverse {kept : List Component} (h : Kept kept) : kept.reverse.foldl normalizeStep [] = kept := by
  induction h with
  | nil => rfl
  | root => rfl
  | parent => rfl
  | rootParent => rfl
  | name _ _ ih => rw [List.reverse_cons, List.foldl_append, ih]; rfl

theorem Kept.normalizeComponents_eq {cs : List Component} (h : Kept cs.reverse) : normalizeComponents cs = cs := by
  have hreverse := h.foldl_reverse
  rw [List.reverse_reverse] at hreverse
  rw [normalizeComponents, hreverse, List.reverse_reverse]

/-! ## Texts in normal form -/

/-- What stands before the last step of a text, with the components it stands for. -/
inductive Before : List Char → List Component → Prop where
  | nothing : Before [] []
  | slash (s : List Char) : Before (s ++ ['/']) (if s = [] then [.root] else componentsOf s)

theorem Before.componentsOf {s last : List Char} {cs : List Component} (h : Before s cs) (hlast : '/' ∉ last) :
    Path.componentsOf (s ++ last) = if s = [] ∧ last = ['.'] then [.current] else cs ++ (innerComponent? last).toList := by
  cases h with
  | nothing =>
    rw [List.nil_append, componentsOf_step hlast]
    simp only [true_and, List.nil_append]
  | slash s =>
    have hne : ¬ (s ++ ['/'] = [] ∧ last = ['.']) := fun h => List.append_ne_nil_of_right_ne_nil s (List.cons_ne_nil _ _) h.1
    rw [if_neg hne, List.append_assoc, List.singleton_append, componentsOf_append, innerComponents_step hlast]

/-- The text of components, newest component first. -/
def textOf (kept : List Component) : List Char := kept.reverse.foldl (fun t c => pushText t c.text.toList) []

theorem textOf_cons {kept : List Component} {c : Component} (hc : Step c) (h : componentsOf (textOf kept) = kept.reverse) :
    ∃ s, textOf (c :: kept) = s ++ c.text.toList ∧ Before s kept.reverse := by
  have hpush : textOf (c :: kept) = pushText (textOf kept) c.text.toList := by
    rw [textOf, List.reverse_cons, List.foldl_append]
    rfl
  have hhead : ¬ c.text.toList.head? = some '/' := fun hslash => hc.noSlash (List.mem_of_head? hslash)
  rw [hpush, pushText, if_neg hhead]
  by_cases hnil : textOf kept = []
  · rw [hnil] at h
    rw [if_pos (.inl hnil), hnil, ← h]
    exact ⟨[], rfl, .nothing⟩
  · by_cases hslash : (textOf kept).getLast? = some '/'
    · obtain ⟨s, hs⟩ := List.getLast?_eq_some_iff.mp hslash
      rw [hs, componentsOf_append] at h
      rw [if_pos (.inr hslash), hs, ← h]
      refine ⟨s ++ ['/'], rfl, ?_⟩
      rw [show innerComponents [] = [] from rfl, List.append_nil]
      exact .slash s
    · rw [if_neg (not_or.mpr ⟨hnil, hslash⟩)]
      refine ⟨textOf kept ++ ['/'], (List.append_assoc _ ['/'] _).symm, ?_⟩
      have hbefore := Before.slash (textOf kept)
      rwa [if_neg hnil, h] at hbefore

theorem componentsOf_textOf {kept : List Component} (h : Kept kept) : componentsOf (textOf kept) = kept.reverse := by
  induction h with
  | nil => rfl
  | root => rfl
  | parent => rfl
  | rootParent => rfl
  | @name s kept hs _ ih =>
    obtain ⟨before, htext, hbefore⟩ := textOf_cons hs ih
    have hdot : ¬ (before = [] ∧ (Component.name s).text.toList = ['.']) := by
      cases hs with
      | name _ _ hcurrent _ => exact fun h => hcurrent h.2
    rw [htext, hbefore.componentsOf hs.noSlash, if_neg hdot, hs.innerComponent?, List.reverse_cons]
    rfl

theorem components_normalize (p : Path) : p.normalize.components = normalizeComponents p.components := by
  rw [components, normalize, ofComponents, String.toList_ofList]
  exact componentsOf_textOf (kept_componentsOf _)

theorem components_normalize_normalize (p : Path) : p.normalize.normalize.components = p.normalize.components := by
  rw [components_normalize p.normalize, components_normalize p]
  refine Kept.normalizeComponents_eq ?_
  rw [normalizeComponents, List.reverse_reverse]
  exact kept_componentsOf p.text.toList

/-- Paths in normal form are equal as soon as their components are. -/
theorem normalize_eq_iff {p q : Path} : p.normalize = q.normalize ↔ p.normalize.components = q.normalize.components := by
  refine ⟨fun h => by rw [h], fun h => ?_⟩
  rw [components_normalize, components_normalize] at h
  rw [normalize, normalize, h]

end PatternCatalog.Path
