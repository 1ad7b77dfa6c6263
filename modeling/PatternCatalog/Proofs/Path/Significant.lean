/-
  PatternCatalog.Proofs.Path.Significant — declaration files are known by their place in the package.

  An extension belongs to the last step of a path, and taking it off leaves what stands before that
  step (`stripExtension_last`). So the path of a file below a directory is stripped to names below
  the directory, or to one step out of it when dots are all that is left of the file name
  (`foldl_stem`). Names below a directory are read relative to it, be it a directory outside of all
  installed packages or the directory of one (`Home`, `libraryRelative_below`), and a step out of it
  is dropped (`libraryRelative_above`).

  Hence the segments of a file are the same wherever its package lies
  (`significant_eq_of_installed`). A file that lies outside of its package has no such segments:
  beside an installed package lies another package (`a_file_beside_its_package_moves`).
-/

import PatternCatalog.Candidate
import PatternCatalog.Proofs.Path.Specifier

namespace PatternCatalog.Path

open Text

/-! ## Extensions -/

theorem dropEnd?_before {before last tail : List Char} {cs : List Component} (hbefore : Before before cs) (htail : '/' ∉ tail) :
    dropEnd? (before ++ last) tail = (dropEnd? last tail).map (before ++ ·) := by
  by_cases hlast : tail <:+ last
  · have hlength := hlast.length_le
    have hkept : (before ++ last).length - tail.length = before.length + (last.length - tail.length) := by
      rw [List.length_append]
      omega
    rw [dropEnd?, dropEnd?, if_pos (List.isSuffixOf_iff_suffix.mpr (hlast.trans (List.suffix_append _ _))),
      if_pos (List.isSuffixOf_iff_suffix.mpr hlast), hkept, List.take_length_add_append]
    rfl
  · have hnot : ¬ tail <:+ before ++ last := by
      rintro ⟨front, hfront⟩
      rcases List.append_eq_append_iff.mp hfront with ⟨between, hbetween, rfl⟩ | ⟨rest, -, rfl⟩
      · by_cases hnil : between = []
        · exact hlast ⟨[], by rw [hnil]; rfl⟩
        · exact htail (List.mem_append_left _ (hbefore.slash_mem hbetween hnil))
      · exact hlast (List.suffix_append _ _)
    rw [dropEnd?, dropEnd?, if_neg (mt List.isSuffixOf_iff_suffix.mp hnot), if_neg (mt List.isSuffixOf_iff_suffix.mp hlast)]
    rfl

theorem prefix_stemOf (name : List Char) : stemOf name <+: name := by
  unfold stemOf
  dsimp only
  split
  · exact List.prefix_rfl
  · exact List.take_prefix _ _

/-- A last step without the extension. -/
def stripStep (last : List Char) (extensions : List String) : List Char :=
  (extensions.findSome? fun ext => dropEnd? last ext.toList).getD (stemOf last)

theorem prefix_stripStep (last : List Char) (extensions : List String) : stripStep last extensions <+: last := by
  unfold stripStep
  cases hfound : extensions.findSome? fun ext => dropEnd? last ext.toList with
  | none => exact prefix_stemOf last
  | some s =>
    obtain ⟨ext, -, hs⟩ := List.exists_of_findSome?_eq_some hfound
    unfold dropEnd? at hs
    split at hs
    · rw [Option.getD_some, ← Option.some.inj hs]
      exact List.take_prefix _ _
    · cases hs

theorem trimBack_of_name {name rest : List Char} (hne : name ≠ []) (hslash : '/' ∉ name) (hdot : name ≠ ['.']) :
    trimBack (name ++ rest) = name ++ rest := by
  unfold trimBack
  split
  · next heq =>
    cases name with
    | nil => exact absurd rfl hne
    | cons c name => exact absurd (List.cons.inj heq).1 fun hc => hslash (hc ▸ List.mem_cons_self)
  · next heq =>
    match name, hne with
    | [c], _ => exact absurd (congrArg (· :: []) (List.cons.inj heq).1) hdot
    | c :: d :: name, _ =>
      have hd : d = '/' := (List.cons.inj (List.cons.inj heq).2).1
      exact absurd (hd ▸ List.mem_cons_of_mem _ List.mem_cons_self) hslash
  · rfl

theorem withoutExtension_last {before : List Char} {name : String} {cs : List Component} (hbefore : Before before cs)
    (hname : Step (.name name)) :
    withoutExtension ⟨String.ofList (before ++ name.toList)⟩ = ⟨String.ofList (before ++ stemOf name.toList)⟩ := by
  have hinner : innerComponent? name.toList = some (.name name) := hname.innerComponent?
  cases hname with
  | name hslash hne hcurrent hparent =>
    have hcomponents := hbefore.componentsOf hslash
    rw [if_neg fun h => hcurrent h.2, hinner] at hcomponents
    have hfile : fileName? ⟨String.ofList (before ++ name.toList)⟩ = some name := by
      rw [fileName?, components, String.toList_ofList, hcomponents]
      simp
    have htrim : trimTrailing (before ++ name.toList) = before ++ name.toList := by
      rw [trimTrailing, List.reverse_append, trimBack_of_name, ← List.reverse_append, List.reverse_reverse]
      · simpa using hne
      · simpa using hslash
      · simpa [List.reverse_eq_iff] using hcurrent
    have hkept : (before ++ name.toList).length - (name.toList.length - (stemOf name.toList).length) =
        before.length + (stemOf name.toList).length := by
      have hlength := (prefix_stemOf name.toList).length_le
      rw [List.length_append]
      omega
    have hstem : name.toList.take (stemOf name.toList).length = stemOf name.toList :=
      (List.prefix_iff_eq_take.mp (prefix_stemOf name.toList)).symm
    simp only [withoutExtension, hfile, String.toList_ofList, htrim, hkept, List.take_length_add_append, hstem]

theorem findSome?_before {before last : List Char} {cs : List Component} {extensions : List String} (hbefore : Before before cs)
    (hext : ∀ ext ∈ extensions, '/' ∉ ext.toList) : (extensions.findSome? fun ext => dropEnd? (before ++ last) ext.toList) =
      (extensions.findSome? fun ext => dropEnd? last ext.toList).map (before ++ ·) := by
  induction extensions with
  | nil => rfl
  | cons ext extensions ih =>
    have ih := ih fun e he => hext e (List.mem_cons_of_mem _ he)
    rw [List.findSome?_cons, List.findSome?_cons, dropEnd?_before hbefore (hext ext List.mem_cons_self), ih]
    cases dropEnd? last ext.toList with
    | none => rfl
    | some s => rfl

/-- Only the last step of a path has an extension. -/
theorem stripExtension_last {before : List Char} {name : String} {cs : List Component} {extensions : List String}
    (hbefore : Before before cs) (hname : Step (.name name)) (hext : ∀ ext ∈ extensions, '/' ∉ ext.toList) :
    stripExtension ⟨String.ofList (before ++ name.toList)⟩ extensions = String.ofList (before ++ stripStep name.toList extensions) := by
  unfold stripExtension stripStep
  rw [String.toList_ofList, findSome?_before hbefore hext, withoutExtension_last hbefore hname]
  cases extensions.findSome? fun ext => dropEnd? name.toList ext.toList with
  | none => rfl
  | some s => rfl

/-! ## Relative to a directory -/

abbrev nodeModules : Component := .name "node_modules"

theorem componentsBetween_append (base below : List Component) : componentsBetween base (base ++ below) = below := by
  induction base with
  | nil => rfl
  | cons c base ih => rw [List.cons_append, componentsBetween, if_pos rfl, ih]

theorem componentsBetween_concat (base : List Component) (c : Component) : componentsBetween (base ++ [c]) base = [.parent] := by
  induction base with
  | nil => rfl
  | cons b base ih => rw [List.cons_append, componentsBetween, if_pos rfl, ih]

/-- A step out of a directory is one `..` from it. -/
theorem componentsBetween_parent {kept : List Component} (h : Kept kept) :
    componentsBetween kept.reverse (normalizeStep kept .parent).reverse = [.parent] := by
  cases h with
  | nil => rfl
  | root => rfl
  | parent => rfl
  | rootParent => rfl
  | @name s kept =>
    rw [List.reverse_cons]
    exact componentsBetween_concat kept.reverse (.name s)

theorem afterNodeModules?_eq_none {cs : List Component} (h : nodeModules ∉ cs) : afterNodeModules? cs = none := by
  induction cs with
  | nil => rfl
  | cons c cs ih =>
    have hc : ¬ c = nodeModules := fun hc => h (hc ▸ List.mem_cons_self)
    rw [afterNodeModules?, ih fun hmem => h (List.mem_cons_of_mem c hmem)]
    exact if_neg hc

theorem afterNodeModules?_append (before : List Component) {after : List Component} (h : nodeModules ∉ after) :
    afterNodeModules? (before ++ nodeModules :: after) = some after := by
  induction before with
  | nil =>
    rw [List.nil_append, afterNodeModules?, afterNodeModules?_eq_none h]
    exact if_pos rfl
  | cons c before ih => rw [List.cons_append, afterNodeModules?, ih]

/-- The directory of an installed package, with a scope or without one. -/
inductive Package : List Component → Prop where
  | plain (cs : List Component) (name : String) : name.toList.head? ≠ some '@' → name ≠ "node_modules" →
      Package (cs ++ [nodeModules, .name name])
  | inScope (cs : List Component) (scope name : String) : scope.toList.head? = some '@' → name ≠ "node_modules" →
      Package (cs ++ [nodeModules, .name scope, .name name])

/-- A directory that a package may lie in: one outside of all installed packages, or that of an installed one. -/
def Home (cs : List Component) : Prop := nodeModules ∉ cs ∨ Package cs

structure Directory (d : Path) : Prop where
  absolute : d.isAbsolute = true
  normal : d.normalize = d

theorem nodeModules_ne {name : String} (h : name ≠ "node_modules") : nodeModules ≠ .name name :=
  fun heq => h (Component.name.inj heq).symm

theorem nodeModules_ne_scope {scope : String} (h : scope.toList.head? = some '@') : nodeModules ≠ .name scope := by
  refine nodeModules_ne ?_
  rintro rfl
  revert h
  decide

/-- What lies below a directory is read relative to it, also when a last step is called `node_modules`. -/
theorem libraryRelative_below {base below : List Component} (hbase : Home base) (hbelow : nodeModules ∉ below.dropLast) :
    (insidePackage? (base ++ below)).getD (componentsBetween base (base ++ below)) = below := by
  have hbetween := componentsBetween_append base below
  by_cases hlast : nodeModules ∈ below
  · -- no component follows the last `node_modules`, so it is the directory of no package
    have hsplit : below = below.dropLast ++ [nodeModules] := by
      have hne : below ≠ [] := List.ne_nil_of_mem hlast
      have hconcat := List.dropLast_concat_getLast hne
      rw [← hconcat] at hlast
      have hend := List.mem_singleton.mp ((List.mem_append.mp hlast).resolve_left hbelow)
      rw [← hend] at hconcat
      exact hconcat.symm
    have hafter : afterNodeModules? (base ++ below) = some [] := by
      rw [hsplit, ← List.append_assoc]
      exact afterNodeModules?_append _ List.not_mem_nil
    rw [insidePackage?, hafter]
    exact hbetween
  · rcases hbase with hmodules | hpackage
    · have hafter : afterNodeModules? (base ++ below) = none :=
        afterNodeModules?_eq_none fun hmem => (List.mem_append.mp hmem).elim hmodules hlast
      rw [insidePackage?, hafter]
      exact hbetween
    · cases hpackage with
      | @plain cs name hscope hname =>
        have hafter : afterNodeModules? (cs ++ [nodeModules, .name name] ++ below) = some (.name name :: below) := by
          rw [List.append_assoc]
          exact afterNodeModules?_append cs fun hmem => (List.mem_cons.mp hmem).elim (nodeModules_ne hname) hlast
        rw [insidePackage?, hafter]
        exact congrArg (Option.getD · _) (congrArg some (if_neg hscope))
      | @inScope cs scope name hscope hname =>
        have hafter : afterNodeModules? (cs ++ [nodeModules, .name scope, .name name] ++ below) =
            some (.name scope :: .name name :: below) := by
          rw [List.append_assoc]
          refine afterNodeModules?_append cs fun hmem => ?_
          rcases List.mem_cons.mp hmem with heq | hmem
          · exact nodeModules_ne_scope hscope heq
          · exact (List.mem_cons.mp hmem).elim (nodeModules_ne hname) hlast
        rw [insidePackage?, hafter]
        exact congrArg (Option.getD · _) (congrArg some (if_pos hscope))

/-- A step out of a directory leaves no names. -/
theorem libraryRelative_above {kept : List Component} (hkept : Kept kept) (hhome : Home kept.reverse) :
    ((insidePackage? (normalizeStep kept .parent).reverse).getD
      (componentsBetween kept.reverse (normalizeStep kept .parent).reverse)).filterMap plainName? = [] := by
  rw [componentsBetween_parent hkept]
  generalize hbase : kept.reverse = base at hhome
  rcases hhome with hmodules | hpackage
  · have hnone : nodeModules ∉ (normalizeStep kept .parent).reverse := by
      intro hmem
      rcases mem_normalizeStep (List.mem_reverse.mp hmem) with hmem | hparent
      · exact hmodules (hbase ▸ List.mem_reverse.mpr hmem)
      · cases hparent
    rw [insidePackage?, afterNodeModules?_eq_none hnone]
    rfl
  · cases hpackage with
    | @plain cs name hscope hname =>
      have hup : (normalizeStep kept .parent).reverse = cs ++ [nodeModules] := by
        rw [← List.reverse_reverse kept, hbase, List.reverse_append]
        exact List.reverse_cons.trans (congrArg (· ++ [nodeModules]) (List.reverse_reverse cs))
      rw [hup, insidePackage?, afterNodeModules?_append cs List.not_mem_nil]
      rfl
    | @inScope cs scope name hscope hname =>
      have hup : (normalizeStep kept .parent).reverse = cs ++ [nodeModules, .name scope] := by
        rw [← List.reverse_reverse kept, hbase, List.reverse_append]
        show (Component.name scope :: nodeModules :: cs.reverse).reverse = _
        simp
      have hafter : afterNodeModules? (cs ++ [nodeModules, .name scope]) = some [.name scope] :=
        afterNodeModules?_append cs fun hmem => nodeModules_ne_scope hscope (List.mem_singleton.mp hmem)
      rw [hup, insidePackage?, hafter]
      exact congrArg (List.filterMap plainName? <| Option.getD · _) (congrArg some (if_pos hscope))

/-! ## Files below a directory -/

section

variable {p : Path} (hp : p.normalize = p)

include hp

theorem components_of_normal : p.components = normalizeComponents p.components := by
  rw [← components_normalize, hp]

theorem kept_of_normal : Kept p.components.reverse := by
  rw [components_of_normal hp, normalizeComponents, List.reverse_reverse]
  exact kept_componentsOf _

theorem text_of_normal : p.text.toList = textOf p.components.reverse := by
  have htext : p.text.toList = p.normalize.text.toList := by rw [hp]
  rw [htext, normalize, ofComponents, String.toList_ofList, ← components_of_normal hp, textOf, List.reverse_reverse]

end

/-- A path in normal form to a file below where it starts, and in no package that is installed there. -/
structure Inner (p : Path) : Prop where
  normal : p.normalize = p
  relative : p.isAbsolute = false
  file : p.components ≠ []
  inside : .parent ∉ p.components
  own : nodeModules ∉ p.components

/-- Such a path ends in the name of its file. -/
theorem Inner.split {p : Path} (h : Inner p) : ∃ before dir name, p.text.toList = before ++ name.toList ∧ Before before dir ∧
    Names dir ∧ (∀ c ∈ dir, Step c) ∧ nodeModules ∉ dir ∧ Step (.name name) := by
  have hkept := kept_of_normal h.normal
  have hnames : Names p.components := by
    intro c hc
    have hroot : c ≠ .root := by
      rintro rfl
      have hhead : p.text.toList.head? ≠ some '/' := by simpa [isAbsolute] using h.relative
      rcases componentsOf_relative hhead with hsteps | hsteps
      · rw [components, hsteps] at hc
        cases step_of_mem_innerComponents hc
      · rw [components, hsteps] at hc
        rcases List.mem_cons.mp hc with hc | hc
        · cases hc
        · cases step_of_mem_innerComponents hc
    cases (hkept.mem (List.mem_reverse.mpr hc)).resolve_left hroot with
    | parent => exact absurd hc h.inside
    | @name s => exact ⟨s, rfl⟩
  have htext := text_of_normal h.normal
  cases hrev : p.components.reverse with
  | nil => exact absurd (List.reverse_eq_nil_iff.mp hrev) h.file
  | cons c dir =>
    have hmem : ∀ d ∈ c :: dir, d ∈ p.components := fun d hd => List.mem_reverse.mp (hrev ▸ hd)
    obtain ⟨name, rfl⟩ := hnames c (hmem c List.mem_cons_self)
    rw [hrev] at hkept htext
    have hstep : Step (.name name) := (hkept.mem List.mem_cons_self).resolve_left (by simp)
    obtain ⟨before, hsplit, hbefore⟩ := textOf_cons hstep (componentsOf_textOf hkept.tail)
    have hdir : Names dir.reverse := fun d hd => hnames d (hmem d (List.mem_cons_of_mem _ (List.mem_reverse.mp hd)))
    refine ⟨before, dir.reverse, name, htext.trans hsplit, hbefore, hdir, fun d hd => ?_, ?_, hstep⟩
    · refine (hkept.tail.mem (List.mem_reverse.mp hd)).resolve_left ?_
      rintro rfl
      obtain ⟨s, hs⟩ := hdir _ hd
      cases hs
    · exact fun hd => h.own (hmem _ (List.mem_cons_of_mem _ (List.mem_reverse.mp hd)))

/-- A relative step is added to a text after a slash. -/
theorem pushText_slash {base : List Char} (hbase : base ≠ []) :
    ∃ front, (if front = [] then [.root] else componentsOf front) = componentsOf base ∧
      ∀ step : List Char, step.head? ≠ some '/' → pushText base step = front ++ '/' :: step := by
  by_cases hslash : base.getLast? = some '/'
  · obtain ⟨front, rfl⟩ := List.getLast?_eq_some_iff.mp hslash
    refine ⟨front, (componentsOf_slash front).symm, fun step hstep => ?_⟩
    rw [pushText, if_neg hstep, if_pos (.inr hslash), List.append_assoc]
    rfl
  · refine ⟨base, if_neg hbase, fun step hstep => ?_⟩
    rw [pushText, if_neg hstep, if_neg (not_or.mpr ⟨hbase, hslash⟩)]

/-- What stands before a last step stands below the directory that the whole is joined to. -/
theorem join_before {base before : List Char} {dir : List Component} (hbase : base ≠ []) (hbefore : Before before dir)
    (hdir : ∀ c ∈ dir, Step c) : ∃ front, front ≠ [] ∧ Before front (componentsOf base ++ dir) ∧
      ∀ last : List Char, (before ++ last).head? ≠ some '/' → pushText base (before ++ last) = front ++ last := by
  obtain ⟨front, hfront, hpush⟩ := pushText_slash hbase
  cases hbefore with
  | nothing =>
    refine ⟨front ++ ['/'], by simp, ?_, fun last hlast => ?_⟩
    · rw [List.append_nil, ← hfront]
      exact .slash front
    · rw [hpush _ hlast]
      simp
  | slash t =>
    have ht : t ≠ [] := by
      rintro rfl
      cases hdir .root (by simp)
    rw [if_neg ht] at hdir ⊢
    refine ⟨front ++ '/' :: t ++ ['/'], by simp, ?_, fun last hlast => ?_⟩
    · have hslash := Before.slash (front ++ '/' :: t)
      rwa [if_neg (by simp), componentsOf_append, hfront, innerComponents_of_steps hdir] at hslash
    · rw [hpush _ hlast]
      simp

/-- Steps of names and a last step that may be one of dots lead to names below, or to one step out. -/
theorem foldl_stem {dir : List Component} {last : Option Component} (hdir : Names dir) (hmodules : nodeModules ∉ dir)
    (hlast : ∀ c ∈ last, Step c) :
    (∃ below : List Component, nodeModules ∉ below.dropLast ∧
        ∀ kept, (dir ++ last.toList).foldl normalizeStep kept = below.reverse ++ kept) ∨
      ∀ kept, (dir ++ last.toList).foldl normalizeStep kept = normalizeStep kept .parent := by
  cases last with
  | none =>
    refine .inl ⟨dir, fun hmem => hmodules (List.dropLast_subset dir hmem), fun kept => ?_⟩
    rw [Option.toList_none, List.append_nil, foldl_names hdir]
  | some c =>
    cases hlast c rfl with
    | @name s =>
      refine .inl ⟨dir ++ [.name s], by rwa [List.dropLast_concat], fun kept => ?_⟩
      rw [List.foldl_append, foldl_names hdir, List.reverse_concat]
      rfl
    | parent =>
      rcases List.eq_nil_or_concat dir with rfl | ⟨init, d, rfl⟩
      · exact .inr fun kept => rfl
      · rw [List.concat_eq_append] at hdir hmodules ⊢
        obtain ⟨s, rfl⟩ := hdir d List.mem_concat_self
        have hinit : Names init := fun c hc => hdir c (List.mem_append_left _ hc)
        refine .inl ⟨init, fun hmem => hmodules (List.mem_append_left _ (List.dropLast_subset init hmem)), fun kept => ?_⟩
        rw [List.foldl_append, foldl_names hdir, List.reverse_concat]
        rfl

section

variable {p : Path} (hp : Inner p) {extensions : List String} (hext : ∀ ext ∈ extensions, '/' ∉ ext.toList)

include hp hext

/-- The components of a file without its extension: those of the directory, names, and a step that is left of the file name. -/
theorem exists_stem : ∃ dir, ∃ last : Option Component, Names dir ∧ nodeModules ∉ dir ∧ (∀ c ∈ last, Step c) ∧
    ∀ d : Path, d.isAbsolute = true →
      components ⟨(d.join p.text).stripExtension extensions⟩ = d.components ++ (dir ++ last.toList) := by
  obtain ⟨before, dir, name, htext, hbefore, hnames, hsteps, hmodules, hname⟩ := hp.split
  have hslash : '/' ∉ stripStep name.toList extensions := fun hmem =>
    hname.noSlash ((prefix_stripStep name.toList extensions).subset hmem)
  refine ⟨dir, innerComponent? (stripStep name.toList extensions), hnames, hmodules,
    fun c hc => step_of_innerComponent? hslash hc, fun d hd => ?_⟩
  have hbase : d.text.toList ≠ [] := by
    intro hnil
    rw [isAbsolute, hnil] at hd
    cases hd
  have hhead : (before ++ name.toList).head? ≠ some '/' := by
    rw [← htext]
    simpa [isAbsolute] using hp.relative
  obtain ⟨front, hfront, hdirectory, hpush⟩ := join_before hbase hbefore hsteps
  rw [join, htext, hpush _ hhead, stripExtension_last hdirectory hname hext, components, String.toList_ofList,
    hdirectory.componentsOf hslash, if_neg fun h => hfront h.1, List.append_assoc]
  rfl

/-- The segments of a file are the same in all directories that its package may lie in. -/
theorem exists_significant : ∃ segments, ∀ d : Path, Directory d → Home d.components →
    significant d (d.join p.text) extensions = segments := by
  obtain ⟨dir, last, hnames, hmodules, hlast, hstem⟩ := exists_stem hp hext
  have hcomponents : ∀ d : Path, Directory d →
      (normalize ⟨(d.join p.text).stripExtension extensions⟩).components =
        ((dir ++ last.toList).foldl normalizeStep d.components.reverse).reverse := by
    intro d hd
    have hstart : d.components.foldl normalizeStep [] = d.components.reverse := by
      simpa using (kept_of_normal hd.normal).foldl_reverse
    rw [components_normalize, normalizeComponents, hstem d hd.absolute, List.foldl_append, hstart]
  rcases foldl_stem hnames hmodules hlast with ⟨below, hbelow, hfold⟩ | hfold
  · refine ⟨dropIndex (below.filterMap plainName?), fun d hd hhome => ?_⟩
    have hrelative := libraryRelative_below hhome hbelow
    rw [significant, libraryRelative, hcomponents d hd, hfold, List.reverse_append, List.reverse_reverse,
      List.reverse_reverse, hrelative]
  · refine ⟨dropIndex [], fun d hd hhome => ?_⟩
    have hrelative := libraryRelative_above (kept_of_normal hd.normal) (by rwa [List.reverse_reverse])
    rw [List.reverse_reverse] at hrelative
    rw [significant, libraryRelative, hcomponents d hd, hfold, hrelative]

end

/-! ## Segments -/

theorem mem_componentsBetween {base target : List Component} {c : Component} (h : c ∈ componentsBetween base target) :
    c = .parent ∨ c ∈ target := by
  induction base generalizing target with
  | nil =>
    rw [componentsBetween, List.map_nil, List.nil_append] at h
    · exact .inr h
    · simp
  | cons b base ih =>
    cases target with
    | nil =>
      rw [componentsBetween, List.append_nil] at h
      · obtain ⟨d, -, rfl⟩ := List.mem_map.mp h
        exact .inl rfl
      · simp
    | cons t target =>
      rw [componentsBetween] at h
      split at h
      · exact (ih h).imp_right (List.mem_cons_of_mem t)
      · rcases List.mem_append.mp h with h | h
        · obtain ⟨d, -, rfl⟩ := List.mem_map.mp h
          exact .inl rfl
        · exact .inr h

theorem afterNodeModules?_suffix {cs rest : List Component} (h : afterNodeModules? cs = some rest) : rest <:+ cs := by
  induction cs generalizing rest with
  | nil => cases h
  | cons c cs ih =>
    rw [afterNodeModules?] at h
    split at h
    · next later hlater =>
      rw [← Option.some.inj h]
      exact (ih hlater).trans (List.suffix_cons c cs)
    · split at h
      · rw [← Option.some.inj h]
        exact List.suffix_cons c cs
      · cases h

theorem mem_libraryRelative {root p : Path} {c : Component} (h : c ∈ libraryRelative root p) :
    c = .parent ∨ c ∈ p.normalize.components := by
  unfold libraryRelative at h
  dsimp only at h
  cases hinside : insidePackage? p.normalize.components with
  | none =>
    rw [hinside] at h
    exact mem_componentsBetween h
  | some inside =>
    rw [hinside, Option.getD_some] at h
    unfold insidePackage? at hinside
    split at hinside
    · next first rest hafter =>
      have hsuffix := afterNodeModules?_suffix hafter
      refine .inr (hsuffix.subset (List.mem_cons_of_mem first ?_))
      rw [← Option.some.inj hinside] at h
      split at h
      · exact List.mem_of_mem_drop h
      · exact h
    · cases hinside

/-- Every segment is a name of its own. -/
theorem step_of_mem_significant {root p : Path} {extensions : List String} {s : String}
    (h : s ∈ significant root p extensions) : Step (.name s) := by
  have hmem : s ∈ (libraryRelative root ⟨p.stripExtension extensions⟩).filterMap plainName? := by
    unfold significant dropIndex at h
    split at h
    · exact List.dropLast_subset _ h
    · exact h
  obtain ⟨c, hc, hs⟩ := List.mem_filterMap.mp hmem
  cases c with
  | name t =>
    obtain rfl := Option.some.inj hs
    have hkept : Kept (normalize ⟨p.stripExtension extensions⟩).components.reverse := by
      rw [components_normalize, normalizeComponents, List.reverse_reverse]
      exact kept_componentsOf _
    have hnormal := (mem_libraryRelative hc).resolve_left (by simp)
    exact (hkept.mem (List.mem_reverse.mpr hnormal)).resolve_left (by simp)
  | _ => cases hs

/-! ## Moving a package -/

/-- A file of a package has the same segments, each a single name, and its candidate the same id, in a directory outside of
all installed packages and in that of an installed package. -/
theorem significant_eq_of_installed {root installed p : Path} {extensions : List String} (hroot : Directory root)
    (houtside : nodeModules ∉ root.components) (hinstalled : Directory installed) (hpackage : Package installed.components)
    (hp : Inner p) (hext : ∀ ext ∈ extensions, '/' ∉ ext.toList) :
    significant root (root.join p.text) extensions = significant installed (installed.join p.text) extensions ∧
      (∀ s ∈ significant root (root.join p.text) extensions, s ≠ "" ∧ s ≠ "." ∧ s ≠ ".." ∧ '/' ∉ s.toList) ∧
      ∀ (fs gs : FileSystem) (o : Options) (rootName installedName : String) (f g : SourceFile),
        o.declarationExtensions = extensions → f.path = root.join p.text → g.path = installed.join p.text →
          (Candidate.ofFile fs o root rootName f).id = (Candidate.ofFile gs o installed installedName g).id := by
  obtain ⟨segments, hsegments⟩ := exists_significant hp hext
  have hsame : significant root (root.join p.text) extensions = significant installed (installed.join p.text) extensions :=
    (hsegments root hroot (.inl houtside)).trans (hsegments installed hinstalled (.inr hpackage)).symm
  refine ⟨hsame, fun s hs => ?_, fun fs gs o rootName installedName f g ho hf hg => ?_⟩
  · cases step_of_mem_significant hs with
    | name hslash hne hcurrent hparent =>
      refine ⟨?_, ?_, ?_, hslash⟩
      · exact fun h => hne (by rw [h]; rfl)
      · exact fun h => hcurrent (by rw [h]; rfl)
      · exact fun h => hparent (by rw [h]; rfl)
  · simp only [Candidate.ofFile, hroot.normal, hinstalled.normal, ho, hf, hg, hsame]

/-- The index of a directory in a package goes by the name of the directory, in a checkout and installed in a scope. -/
theorem an_installed_index_stays :
    significant ⟨"/lib"⟩ ((⟨"/lib"⟩ : Path).join "components/button/index.d.ts") [".d.ts"] =
      significant ⟨"/app/node_modules/@acme/ui"⟩
        ((⟨"/app/node_modules/@acme/ui"⟩ : Path).join "components/button/index.d.ts") [".d.ts"] :=
  have hroot : Directory ⟨"/lib"⟩ := ⟨by decide, by decide⟩
  have hinstalled : Directory ⟨"/app/node_modules/@acme/ui"⟩ := ⟨by decide, by decide⟩
  have hpackage : Package (components ⟨"/app/node_modules/@acme/ui"⟩) :=
    Package.inScope [.root, .name "app"] "@acme" "ui" (by decide) (by decide)
  have hfile : Inner ⟨"components/button/index.d.ts"⟩ := ⟨by decide, by decide, by decide, by decide, by decide⟩
  (significant_eq_of_installed hroot (by decide) hinstalled hpackage hfile (by decide)).1

/-- A path in normal form may lead out of the package, and then its segments depend on where the package lies. -/
theorem a_file_beside_its_package_moves : Directory ⟨"/lib"⟩ ∧ Directory ⟨"/app/node_modules/ui"⟩ ∧
    nodeModules ∉ components ⟨"/lib"⟩ ∧ Package (components ⟨"/app/node_modules/ui"⟩) ∧
    normalize ⟨"../x.d.ts"⟩ = ⟨"../x.d.ts"⟩ ∧ isAbsolute ⟨"../x.d.ts"⟩ = false ∧ nodeModules ∉ components ⟨"../x.d.ts"⟩ ∧
    significant ⟨"/lib"⟩ ((⟨"/lib"⟩ : Path).join "../x.d.ts") [".d.ts"] = ["x"] ∧
    significant ⟨"/app/node_modules/ui"⟩ ((⟨"/app/node_modules/ui"⟩ : Path).join "../x.d.ts") [".d.ts"] = [] := by
  refine ⟨⟨by decide, by decide⟩, ⟨by decide, by decide⟩, by decide, ?_, by decide⟩
  exact Package.plain [.root, .name "app"] "ui" (by decide) (by decide)

end PatternCatalog.Path
