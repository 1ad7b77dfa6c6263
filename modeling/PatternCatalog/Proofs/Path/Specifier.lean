/-
  PatternCatalog.Proofs.Path.Specifier — where the candidates of a specifier lie.

  A candidate differs from the normalized target of its specifier by its last component, so it is
  normalized too, but for two shapes that extensions of dots bring about (`candidate_cases`,
  `candidate_kept`): a lone `.`, and a path that ends in a `..` step after another step. That other
  step is one of the directory or the one that the specifier alone determines (`step_of_foldl`).
-/

import PatternCatalog.Path.Specifier
import PatternCatalog.Proofs.Path

namespace PatternCatalog

namespace Path

/-! ## Where steps lead -/

theorem mem_normalizeStep {kept : List Component} {c d : Component} (h : d ∈ normalizeStep kept c) : d ∈ kept ∨ d = c := by
  cases c with
  | current => exact .inl h
  | root => exact (List.mem_cons.mp h).symm
  | name s => exact (List.mem_cons.mp h).symm
  | parent =>
    cases kept with
    | nil => exact .inr (List.mem_singleton.mp h)
    | cons k rest =>
      cases k with
      | root =>
        cases rest with
        | nil => exact (List.mem_cons.mp h).symm
        | cons k rest => exact .inl (List.mem_cons_of_mem _ h)
      | _ => exact .inl (List.mem_cons_of_mem _ h)

/-- Normalization keeps what is there, and `..` steps. -/
theorem mem_foldl_normalizeStep {kept cs : List Component} {d : Component} (h : d ∈ cs.foldl normalizeStep kept) :
    d ∈ kept ∨ d ∈ cs := by
  induction cs generalizing kept with
  | nil => exact .inl h
  | cons c cs ih =>
    rcases ih h with h | h
    · rcases mem_normalizeStep h with h | rfl
      · exact .inl h
      · exact .inr List.mem_cons_self
    · exact .inr (List.mem_cons_of_mem _ h)

/-- The names that steps lead down to, newest first, wherever they start. -/
def ownStep (own : List Component) : Component → List Component
  | .parent => own.tail
  | .name s => .name s :: own
  | _ => own

def ownNames (steps : List Component) : List Component := steps.foldl ownStep []

/-- Above the names of their own, steps leave something of what was there, or a `..`. -/
theorem foldl_ownNames {steps : List Component} (hsteps : ∀ c ∈ steps, Step c) (kept : List Component) :
    ∃ base, (∀ c ∈ base, c ∈ kept ∨ c = .parent) ∧ steps.foldl normalizeStep kept = ownNames steps ++ base := by
  have hrun : ∀ (own base : List Component), (∀ c ∈ own, ∃ s, c = .name s) → (∀ c ∈ base, c ∈ kept ∨ c = .parent) →
      ∃ base', (∀ c ∈ base', c ∈ kept ∨ c = .parent) ∧
        steps.foldl normalizeStep (own ++ base) = steps.foldl ownStep own ++ base' := by
    induction steps with
    | nil => exact fun own base _ hbase => ⟨base, hbase, rfl⟩
    | cons c steps ih =>
      intro own base hown hbase
      have ih := ih fun d hd => hsteps d (List.mem_cons_of_mem _ hd)
      cases hsteps c List.mem_cons_self with
      | @name s _ _ _ _ =>
        refine ih (.name s :: own) base (fun d hd => ?_) hbase
        rcases List.mem_cons.mp hd with rfl | hd
        · exact ⟨s, rfl⟩
        · exact hown d hd
      | parent =>
        cases own with
        | cons n own =>
          obtain ⟨s, rfl⟩ := hown n List.mem_cons_self
          exact ih own base (fun d hd => hown d (List.mem_cons_of_mem _ hd)) hbase
        | nil =>
          have hpopped : ∀ d ∈ normalizeStep base .parent, d ∈ kept ∨ d = .parent := by
            intro d hd
            rcases mem_normalizeStep hd with hd | hd
            · exact hbase d hd
            · exact .inr hd
          exact ih [] _ (fun d hd => nomatch hd) hpopped
  exact hrun [] kept (fun d hd => nomatch hd) fun d hd => .inl hd

/-- What is last but one after some steps was there, or the steps alone determine it. -/
theorem step_of_foldl {steps kept rest : List Component} {last step : Component} (hsteps : ∀ c ∈ steps, Step c)
    (h : steps.foldl normalizeStep kept = last :: step :: rest) :
    step ∈ kept ∨ step = .parent ∨ (ownNames steps)[1]? = some step := by
  obtain ⟨base, hbase, hall⟩ := foldl_ownNames hsteps kept
  rw [h] at hall
  cases hown : ownNames steps with
  | nil =>
    rw [hown, List.nil_append] at hall
    exact (hbase step (hall ▸ List.mem_cons_of_mem _ List.mem_cons_self)).imp_right .inl
  | cons n own =>
    rw [hown] at hall
    cases own with
    | nil =>
      have hrest : step :: rest = base := (List.cons.inj hall).2
      exact (hbase step (hrest ▸ List.mem_cons_self)).imp_right .inl
    | cons n' own =>
      refine .inr (.inr ?_)
      rw [(List.cons.inj (List.cons.inj hall).2).1]
      rfl

/-! ## The last step of a normalized text -/

/-- A text in normal form is what stands before its last step, and that step. -/
theorem textOf_split {kept : List Component} (h : Kept kept) : ∃ before last dir, textOf kept = before ++ last ∧ '/' ∉ last ∧
    Before before dir.reverse ∧ Kept dir ∧ (dir = [] ∨ dir = [.root] ∨ ∃ c, kept = c :: dir) := by
  have hcons : ∀ {c rest}, kept = c :: rest → Step c → ∃ before last dir, textOf kept = before ++ last ∧ '/' ∉ last ∧
      Before before dir.reverse ∧ Kept dir ∧ (dir = [] ∨ dir = [.root] ∨ ∃ c, kept = c :: dir) := by
    rintro c rest rfl hc
    obtain ⟨before, htext, hbefore⟩ := textOf_cons hc (componentsOf_textOf h.tail)
    exact ⟨before, c.text.toList, rest, htext, hc.noSlash, hbefore, h.tail, .inr (.inr ⟨c, rfl⟩)⟩
  cases h with
  | nil => exact ⟨[], [], [], rfl, List.not_mem_nil, .nothing, .nil, .inl rfl⟩
  | root => exact ⟨['/'], [], [.root], rfl, List.not_mem_nil, .slash [], .root, .inr (.inl rfl)⟩
  | parent => exact hcons rfl .parent
  | rootParent => exact hcons rfl .parent
  | name hs _ => exact hcons rfl hs

/-- What stands before the last step of a text ends in a slash, unless it is nothing. -/
theorem Before.slash_mem {before front between : List Char} {cs : List Component} (h : Before before cs)
    (hsplit : before = front ++ between) (hne : between ≠ []) : '/' ∈ between := by
  cases h with
  | nothing => exact absurd (List.append_eq_nil_iff.mp hsplit.symm).2 hne
  | slash s =>
    obtain ⟨init, c, rfl⟩ := (List.eq_nil_or_concat between).resolve_left hne
    rw [List.concat_eq_append, ← List.append_assoc] at hsplit
    rw [List.concat_eq_append, ← List.singleton_inj.mp (List.append_inj_right' hsplit rfl)]
    exact List.mem_concat_self

/-- A last step in place of another one. -/
theorem components_of_last {before last : List Char} {dir : List Component} (hdir : Kept dir)
    (hbefore : Before before dir.reverse) (hlast : '/' ∉ last) :
    Kept (componentsOf (before ++ last)).reverse ∨ componentsOf (before ++ last) = [.current] ∨
      ∃ step rest, dir = step :: rest ∧ step ≠ .root ∧ componentsOf (before ++ last) = rest.reverse ++ [step, .parent] := by
  rw [hbefore.componentsOf hlast]
  split
  · exact .inr (.inl rfl)
  · cases hc : innerComponent? last with
    | none => exact .inl (by simpa using hdir)
    | some c =>
      cases step_of_innerComponent? hlast hc with
      | name hslash hne hcurrent hparent => exact .inl (by simpa using hdir.name (.name hslash hne hcurrent hparent))
      | parent =>
        cases hdir with
        | nil => exact .inl .parent
        | root => exact .inl .rootParent
        | parent => exact .inr (.inr ⟨_, _, rfl, by simp, rfl⟩)
        | rootParent => exact .inr (.inr ⟨_, _, rfl, by simp, rfl⟩)
        | name _ _ => exact .inr (.inr ⟨_, _, rfl, by simp, by simp⟩)

/-- A last step that is more than dots is the last component. -/
theorem kept_of_last {before last : List Char} {dir : List Component} (hdir : Kept dir) (hbefore : Before before dir.reverse)
    (hslash : '/' ∉ last) (hdots : ∃ c ∈ last, c ≠ '.') : Kept (componentsOf (before ++ last)).reverse := by
  obtain ⟨c, hc, hne⟩ := hdots
  have hempty : last ≠ [] := List.ne_nil_of_mem hc
  have hcurrent : last ≠ ['.'] := fun h => hne (by simpa [h] using hc)
  have hparent : last ≠ ['.', '.'] := fun h => hne (by simpa [h] using hc)
  have hinner : innerComponent? last = some (.name (String.ofList last)) := by simp [innerComponent?, hempty, hcurrent, hparent]
  rw [hbefore.componentsOf hslash, if_neg fun h => hcurrent h.2, hinner]
  simpa using hdir.name (.name (by simpa using hslash) (by simpa using hempty) (by simpa using hcurrent) (by simpa using hparent))

end Path

namespace Specifier

open PatternCatalog.Path

theorem head?_eq_dot {specifier : String} (h : isRelative specifier = true) : specifier.toList.head? = some '.' := by
  simp only [isRelative, Bool.or_eq_true, beq_iff_eq] at h
  obtain ((h | h) | rfl) | rfl := h
  · obtain ⟨rest, hrest⟩ := List.isPrefixOf_iff_prefix.mp h
    rw [← hrest]
    rfl
  · obtain ⟨rest, hrest⟩ := List.isPrefixOf_iff_prefix.mp h
    rw [← hrest]
    rfl
  · rfl
  · rfl

theorem head?_of_isRelative {specifier : String} (h : isRelative specifier = true) : specifier.toList.head? ≠ some '/' := by
  rw [head?_eq_dot h]
  decide

/-- Cutting an end without slashes off a text leaves what stands before its last step. -/
theorem dropEnd?_last {before last tail s : List Char} {cs : List Path.Component} (hbefore : Before before cs) (hlast : '/' ∉ last)
    (htail : '/' ∉ tail) (h : Text.dropEnd? (before ++ last) tail = some s) : ∃ last', s = before ++ last' ∧ '/' ∉ last' := by
  unfold Text.dropEnd? at h
  split at h
  · next hsuffix =>
    obtain ⟨front, hfront⟩ := List.isSuffixOf_iff_suffix.mp hsuffix
    have hs : s = front := by
      rw [← Option.some.inj h, ← hfront, List.length_append, Nat.add_sub_cancel]
      exact List.take_left' rfl
    rcases List.append_eq_append_iff.mp hfront with ⟨between, hbetween, rfl⟩ | ⟨kept, rfl, rfl⟩
    · have hnil : between = [] := by
        by_contra hne
        exact htail (List.mem_append_left _ (hbefore.slash_mem hbetween hne))
      rw [hnil, List.append_nil] at hbetween
      exact ⟨[], by rw [hs, hbetween, List.append_nil], List.not_mem_nil⟩
    · exact ⟨kept, hs, fun hmem => hlast (List.mem_append_left _ hmem)⟩
  · cases h

theorem withoutScriptExtension_last {before last : List Char} {cs : List Path.Component} (hbefore : Before before cs)
    (hlast : '/' ∉ last) : ∃ last', withoutScriptExtension (before ++ last) = before ++ last' ∧ '/' ∉ last' := by
  unfold withoutScriptExtension
  cases hfound : scriptExtensions.findSome? fun ext => Text.dropEnd? (before ++ last) ext.toList with
  | none => exact ⟨last, rfl, hlast⟩
  | some s =>
    obtain ⟨ext, hext, hs⟩ := List.exists_of_findSome?_eq_some hfound
    have hslash : ∀ ext ∈ scriptExtensions, '/' ∉ ext.toList := by decide
    exact dropEnd?_last hbefore hlast (hslash ext hext) hs

/-- The components that the target of a specifier comes to, newest first. -/
def kept (dir : Path) (specifier : String) : List Path.Component := (dir.join specifier).components.foldl normalizeStep []

section

variable {dir : Path} {specifier : String}

theorem base_kept : Kept (dir.join specifier).normalize.components.reverse := by
  rw [components_normalize, normalizeComponents, List.reverse_reverse]
  exact kept_componentsOf _

/-- With an extension, the last step of a target becomes another one. -/
theorem stem_components (dir : Path) (specifier : String) {ext : String} (hext : '/' ∉ ext.toList) : ∃ before last rest,
    Path.components ⟨String.ofList (withoutScriptExtension (dir.join specifier).normalize.text.toList ++ ext.toList)⟩ =
      componentsOf (before ++ (last ++ ext.toList)) ∧ '/' ∉ last ++ ext.toList ∧ Before before rest.reverse ∧ Kept rest ∧
      (rest = [] ∨ rest = [.root] ∨ ∃ c, kept dir specifier = c :: rest) := by
  have htext : (dir.join specifier).normalize.text.toList = textOf (kept dir specifier) := String.toList_ofList
  obtain ⟨before, last, rest, hsplit, hlast, hbefore, hrest, hcases⟩ :=
    textOf_split (kept_componentsOf (dir.join specifier).text.toList)
  obtain ⟨last', hstem, hlast'⟩ := withoutScriptExtension_last hbefore hlast
  rw [← hsplit] at hstem
  refine ⟨before, last', rest, ?_, fun h => (List.mem_append.mp h).elim hlast' hext, hbefore, hrest, hcases⟩
  rw [components, String.toList_ofList, htext, kept, components, hstem, List.append_assoc]

theorem index_kept {ext : String} (hext : '/' ∉ ext.toList) :
    Kept ((dir.join specifier).normalize.join ("index" ++ ext)).components.reverse := by
  have hbase : (dir.join specifier).normalize.components = (kept dir specifier).reverse := components_normalize _
  have hlist : ("index" ++ ext).toList = 'i' :: ("ndex".toList ++ ext.toList) := by rw [String.toList_append]; rfl
  have hslash : '/' ∉ ("index" ++ ext).toList := by
    rw [String.toList_append]
    exact fun h => (List.mem_append.mp h).elim (by decide) hext
  have hstep : Step (.name ("index" ++ ext)) := by
    refine .name hslash ?_ ?_ ?_ <;> rw [hlist] <;> simp
  have hinner : innerComponents ("index" ++ ext).toList = [.name ("index" ++ ext)] := by
    rw [innerComponents_step hslash]
    exact congrArg Option.toList hstep.innerComponent?
  have hhead : ("index" ++ ext).toList.head? ≠ some '/' := by rw [hlist]; simp
  have hcomponents : ((dir.join specifier).normalize.join ("index" ++ ext)).components =
      (kept dir specifier).reverse ++ [.name ("index" ++ ext)] := by
    rw [components, join, String.toList_ofList]
    obtain ⟨hpush, hempty⟩ | hpush := @pushText_components (dir.join specifier).normalize.text.toList _ hhead
    · rw [components, hempty] at hbase
      have hdot : ("index" ++ ext).toList ≠ ['.'] := by rw [hlist]; simp
      rw [hpush, componentsOf_step hslash, if_neg hdot, ← hbase, ← innerComponents_step hslash, hinner]
      rfl
    · rw [hpush, ← hbase, hinner]
      rfl
  rw [hcomponents, List.reverse_append, List.reverse_reverse]
  exact (kept_componentsOf _).name hstep

variable {extensions : List String} {p : Path} (hp : p ∈ candidates dir specifier extensions)

include hp

theorem candidate_shape : p = (dir.join specifier).normalize ∨ ∃ ext ∈ extensions,
    p = ⟨String.ofList (withoutScriptExtension (dir.join specifier).normalize.text.toList ++ ext.toList)⟩ ∨
      p = (dir.join specifier).normalize.join ("index" ++ ext) := by
  unfold candidates at hp
  dsimp only at hp
  rcases List.mem_append.mp hp with hp | hp
  · rcases List.mem_append.mp hp with hp | hp
    · split at hp
      · exact .inl (List.mem_singleton.mp hp)
      · cases hp
    · obtain ⟨ext, hmem, rfl⟩ := List.mem_map.mp hp
      exact .inr ⟨ext, hmem, .inl rfl⟩
  · obtain ⟨ext, hmem, rfl⟩ := List.mem_map.mp hp
    exact .inr ⟨ext, hmem, .inr rfl⟩

theorem candidate_cases (hext : ∀ ext ∈ extensions, '/' ∉ ext.toList) : Kept p.components.reverse ∨ p.components = [.current] ∨
    ∃ last step rest, kept dir specifier = last :: step :: rest ∧ step ≠ .root ∧ p.components = rest.reverse ++ [step, .parent] := by
  obtain rfl | ⟨ext, hmem, rfl | rfl⟩ := candidate_shape hp
  · exact .inl base_kept
  · obtain ⟨before, last, rest, hcomponents, hslash, hbefore, hrest, hcases⟩ := stem_components dir specifier (hext ext hmem)
    rw [hcomponents]
    rcases components_of_last hrest hbefore hslash with h | h | ⟨step, rest', rfl, hstep, h⟩
    · exact .inl h
    · exact .inr (.inl h)
    · rcases hcases with hnil | hroot | ⟨c, hc⟩
      · cases hnil
      · exact absurd (List.cons.inj hroot).1 hstep
      · exact .inr (.inr ⟨c, step, rest', hc, hstep, h⟩)
  · exact .inl (index_kept (hext ext hmem))

/-- An extension that is more than dots leaves no room for the odd shapes. -/
theorem candidate_kept (hext : ∀ ext ∈ extensions, '/' ∉ ext.toList) (hdots : ∀ ext ∈ extensions, ∃ c ∈ ext.toList, c ≠ '.') :
    Kept p.components.reverse := by
  obtain rfl | ⟨ext, hmem, rfl | rfl⟩ := candidate_shape hp
  · exact base_kept
  · obtain ⟨before, last, rest, hcomponents, hslash, hbefore, hrest, -⟩ := stem_components dir specifier (hext ext hmem)
    obtain ⟨c, hc, hne⟩ := hdots ext hmem
    rw [hcomponents]
    exact kept_of_last hrest hbefore hslash ⟨c, List.mem_append_right _ hc, hne⟩
  · exact index_kept (hext ext hmem)

end

end Specifier

end PatternCatalog
