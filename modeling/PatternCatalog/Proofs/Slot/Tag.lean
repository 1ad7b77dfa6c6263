/-
  PatternCatalog.Proofs.Slot.Tag — the component that a tag names by an export.

  A component is registered by an export that takes the first value of its name, and a tag is
  looked up by an export that takes the first declaration of its name, of whatever kind.
  - `first_of_name`: where no type of the name comes before it, both are the first value; else
    the first declaration is a type and no value.
  - `exported?_component`: so an export leads to the component that it registers, or to a
    declaration that is no component, which has no pattern either (`pattern?_of_shapeless`).
  - `export_names_component_iff`: a tag that names the export gets the pattern of the component
    exactly when no type of its name comes before it in its file.

  An interface hides the component of its name after it (`an_interface_hides_a_component`).
-/

import PatternCatalog.Proofs.Library.Exports
import PatternCatalog.Proofs.Library.Space
import PatternCatalog.Proofs.Registry
import PatternCatalog.Slot.Content

namespace PatternCatalog

/-! ## Names of a file -/

namespace Library

/-- Whether a type of its name comes before a declaration in its file. -/
def TypeBefore (l : Library) (key : DeclarationKey) : Prop :=
  ∃ i < key.index, ∃ t d, l.declaration? ⟨key.file, i⟩ = some t ∧ l.declaration? key = some d ∧ t.name = d.name ∧
    t.kind.isType = true

/-- Whether all entries of an export have one target, as those of merged declarations have. -/
def OneTarget (l : Library) (file : Nat) : Prop :=
  ∀ e ∈ (l.moduleAt file).exports, ∀ e' ∈ (l.moduleAt file).exports, e.exported = e'.exported → e.target = e'.target

variable {l : Library} {file : Nat} {name own : String} {space : Space} {key : DeclarationKey}

/-- A declaration that is found is one of the name, and none of the name before it counts. -/
theorem declared?_spec (h : l.declared? file name space = some key) : key.file = file ∧
    (∃ d, l.declaration? key = some d ∧ d.name = name ∧ space.admits d.kind = true) ∧
    ∀ i < key.index, ∀ d, l.declaration? ⟨file, i⟩ = some d → d.name = name → space.admits d.kind = false := by
  obtain ⟨index, hindex, rfl⟩ := Option.map_eq_some_iff.mp h
  obtain ⟨hlt, hfound, hbefore⟩ := List.findIdx?_eq_some_iff_getElem.mp hindex
  refine ⟨rfl, ⟨_, List.getElem?_eq_getElem hlt, by simpa using hfound⟩, fun i hi d hd hname => ?_⟩
  obtain ⟨hilt, rfl⟩ := List.getElem?_eq_some_iff.mp hd
  simpa [hname] using hbefore i hi

theorem isType_of_not_isValue {k : DeclarationKind} (h : k.isValue = false) : k.isType = true := by
  cases k <;> first | rfl | cases h

/-- The first declaration of a name is its first value, or a type that is no value and comes before it. -/
theorem first_of_name (h : l.declared? file own .value = some key) : ∃ first d,
    l.declared? file own .any = some first ∧ l.declaration? first = some d ∧
      (first = key ∧ ¬ l.TypeBefore key ∨ d.kind.isValue = false ∧ l.TypeBefore key) := by
  obtain ⟨rfl, ⟨d, hd, hname, -⟩, hvalue⟩ := declared?_spec h
  cases hany : l.declared? key.file own .any with
  | none => exact absurd ⟨d, mem_named.mpr ⟨List.mem_of_getElem? hd, hname⟩, rfl⟩ (not_declaresIn hany)
  | some first =>
    obtain ⟨hfile, ⟨t, ht, htname, -⟩, hfirst⟩ := declared?_spec hany
    obtain ⟨firstFile, i⟩ := first
    obtain rfl : firstFile = key.file := hfile
    refine ⟨_, t, rfl, ht, ?_⟩
    rcases Nat.lt_trichotomy i key.index with hlt | heq | hgt
    · have hnot := hvalue i hlt t ht htname
      exact .inr ⟨hnot, i, hlt, t, d, ht, hd, htname.trans hname.symm, isType_of_not_isValue hnot⟩
    · refine .inl ⟨by rw [heq], ?_⟩
      rintro ⟨j, hj, t', d', ht', hd', htname', -⟩
      obtain rfl := Option.some.inj (hd.symm.trans hd')
      cases hfirst j (heq ▸ hj) t' ht' (htname'.trans hname)
    · cases hfirst key.index hgt d hd hname

/-! ## Exports of a file -/

/-- The entries of an export lead to the first declaration of their name. -/
theorem exported?_of_here (hone : l.OneTarget file) (hentry : ⟨name, .here own⟩ ∈ (l.moduleAt file).exports)
    (hkey : l.declared? file own .any = some key) : l.exported? file name = some (.declaration key) := by
  cases hentries : (l.moduleAt file).exports.filter (·.exported == name) with
  | nil => exact absurd (beq_self_eq_true name) (List.filter_eq_nil_iff.mp hentries _ hentry)
  | cons e es =>
    obtain ⟨he, hname⟩ := List.mem_filter.mp (hentries ▸ List.mem_cons_self)
    have htarget : e.target = .here own := hone e he _ hentry (by simpa using hname)
    have hfound : l.targetOutcome file e.target = .found (.declaration key) := by
      rw [declared?_any] at hkey
      obtain ⟨index, hindex, rfl⟩ := Option.map_eq_some_iff.mp hkey
      rw [htarget, targetOutcome, hindex]
    rw [exported?, search, exportSearch_of_new _ List.not_mem_nil, outcomes, hentries, List.map_cons, List.cons_append, hfound]
    rfl

end Library

/-! ## Components -/

namespace Component

variable {l : Library} {o : Options} {file : Nat} {name own : String} {key : DeclarationKey} {d : Declaration}

/-- Components are values. -/
theorem shapeless_of_not_isValue (hd : l.declaration? key = some d) (h : d.kind.isValue = false) : shape? l o key = none := by
  rw [shape?, hd]
  cases hkind : d.kind with
  | interface _ _ => simp [hkind, props?]
  | «alias» _ => simp [hkind, props?]
  | enum _ | «class» _ | function _ _ | «variable» _ => rw [hkind] at h; cases h

/-- A component that an entry exports is the first value of its name. -/
theorem declared?_of_exported (hkey : l.exportedDeclaration? file own = some key) (hshape : (shape? l o key).isSome) :
    l.declared? file own .value = some key := by
  rw [Library.exportedDeclaration?, Option.orElse_eq_orElse, Option.orElse_eq_or, Option.or_eq_some_iff] at hkey
  rcases hkey with hvalue | ⟨hnone, hany⟩
  · exact hvalue
  · obtain ⟨rfl, ⟨d, hd, hname, -⟩, -⟩ := Library.declared?_spec hany
    have hnot : d.kind.isValue ≠ true := fun hvalue =>
      Library.not_declaresIn hnone ⟨d, Library.mem_named.mpr ⟨List.mem_of_getElem? hd, hname⟩, hvalue⟩
    rw [shapeless_of_not_isValue hd (by simpa using hnot)] at hshape
    cases hshape

/-- The export that registers a component leads to it, or to a declaration that is no component. -/
theorem exported?_component (hone : l.OneTarget file) (hexport : (name, key) ∈ l.localExports file)
    (hshape : (shape? l o key).isSome) : ∃ first, l.exported? file name = some (.declaration first) ∧
      (first = key ∧ ¬ l.TypeBefore key ∨ shape? l o first = none ∧ l.TypeBefore key) := by
  obtain ⟨own, hentry, hkey⟩ := Library.mem_localExports hexport
  obtain ⟨first, d, hfirst, hd, hcases⟩ := Library.first_of_name (declared?_of_exported hkey hshape)
  refine ⟨first, Library.exported?_of_here hone hentry hfirst, ?_⟩
  rcases hcases with hsame | ⟨hnot, hbefore⟩
  · exact .inl hsame
  · exact .inr ⟨shapeless_of_not_isValue hd hnot, hbefore⟩

end Component

/-! ## Patterns -/

namespace Registry

variable {s : Setting} {key : DeclarationKey}

theorem keys_ofSetting (s : Setting) : (ofSetting s).map (·.key) = s.registered.map Listing.key := by
  rw [ofSetting_eq, Setting.registrations_keys]

/-- A registered component has the pattern that was registered. -/
theorem pattern?_of_registered {r : Registration} (hr : r ∈ ofSetting s) : pattern? s (ofSetting s) r.key = some r.build.identity := by
  have hnodup : ((ofSetting s).map (·.key)).Nodup := by
    rw [keys_ofSetting]
    exact firsts_nodup _ _
  rw [pattern?, identity?, find?_key (·.key) hnodup hr]
  rfl

/-- A declaration that is no component has no pattern. -/
theorem pattern?_of_shapeless (h : Component.shape? s.library s.options key = none) : pattern? s (ofSetting s) key = none := by
  have hnone : ∀ name, Component.ofDeclaration? s.library s.options name key = none := fun name => by
    rw [Component.ofDeclaration?, h]
    rfl
  have hunregistered : identity? (ofSetting s) key = none := by
    rw [identity?, Option.map_eq_none_iff, List.find?_eq_none]
    rintro r hr hkey
    have hmem : key ∈ s.registered.map Listing.key := by
      rw [← keys_ofSetting, ← eq_of_beq hkey]
      exact List.mem_map_of_mem hr
    obtain ⟨x, hx, rfl⟩ := List.mem_map.mp hmem
    have hcomponent := (s.mem_registered_iff.mp hx).2.2.1
    rw [hnone] at hcomponent
    cases hcomponent
  rw [pattern?, hunregistered, hnone]
  rfl

end Registry

/-! ## Tags -/

namespace Scope

/-- The tags that stand for an export of a file by an import of the example. -/
inductive Names (scope : Scope) (file : Nat) (name : String) : List String → Prop
  | imported {tag i} (himport : scope.imports.find? (·.name == tag) = some i)
      (hmodule : scope.library.module? scope.file i.source = some file) (hname : i.imported.exportName? = some name) :
      Names scope file name [tag]
  | within {tag i} (himport : scope.imports.find? (·.name == tag) = some i)
      (hmodule : scope.library.module? scope.file i.source = some file) (hwhole : i.imported.exportName? = none) :
      Names scope file name [tag, name]

variable {scope : Scope} {file : Nat} {name : String} {tag : List String}

theorem tag?_of_names (h : scope.Names file name tag) : scope.tag? tag = scope.library.exported? file name >>= declaration? := by
  cases h with
  | imported himport hmodule hname => simp [tag?, first?, importSymbol?, himport, hmodule, hname]
  | within himport hmodule hwhole => simp [tag?, first?, importSymbol?, himport, hmodule, hwhole]

/-- An export of a component leads to its declaration, and a tag by that export gets the pattern
under which the declaration is registered, exactly when no type of its name comes before it. -/
theorem export_names_component_iff {s : Setting} {key : DeclarationKey} (hone : s.library.OneTarget file)
    (hexport : (name, key) ∈ s.library.localExports file)
    (hshape : (Component.shape? s.library s.options key).isSome) :
    (s.library.exported? file name = some (.declaration key) ↔ ¬ s.library.TypeBefore key) ∧
    ∀ r ∈ Registry.ofSetting s, r.key = key → ∀ scope : Scope, scope.library = s.library → ∀ tag,
      scope.Names file name tag →
        (scope.tag? tag >>= Registry.pattern? s (Registry.ofSetting s) = some r.build.identity ↔ ¬ s.library.TypeBefore key) := by
  obtain ⟨first, hfirst, hcases⟩ := Component.exported?_component hone hexport hshape
  have htag : ∀ scope : Scope, scope.library = s.library → ∀ tag, scope.Names file name tag → scope.tag? tag = some first := by
    intro scope hlibrary tag hnames
    rw [tag?_of_names hnames, hlibrary, hfirst]
    rfl
  rcases hcases with ⟨rfl, hfree⟩ | ⟨hshapeless, hbefore⟩
  · refine ⟨iff_of_true hfirst hfree, ?_⟩
    rintro r hr rfl scope hlibrary tag hnames
    rw [htag scope hlibrary tag hnames]
    exact iff_of_true (Registry.pattern?_of_registered hr) hfree
  · refine ⟨iff_of_false (fun hkey => ?_) (not_not_intro hbefore), ?_⟩
    · obtain rfl := Symbol.declaration.inj (Option.some.inj (hfirst.symm.trans hkey))
      rw [hshapeless] at hshape
      cases hshape
    · intro r _ _ scope hlibrary tag hnames
      rw [htag scope hlibrary tag hnames, Option.bind_eq_bind, Option.bind_some, Registry.pattern?_of_shapeless hshapeless]
      exact iff_of_false (by simp) (not_not_intro hbefore)

/-! ## A component and a type of one name -/

def buttonProps : Declaration :=
  ⟨"Button", 7, none, .interface [] [⟨"label", false, some (.keyword .string), "string", none, 26⟩]⟩

/-- A component with the props of `buttonProps`. -/
def buttonValue : Declaration :=
  ⟨"Button", 64, none, .variable (some (.reference none ["React", "FC"] [.reference none ["Button"] []]))⟩

/-- A library of one file that declares and exports both, in one order or the other. -/
def buttons (typeFirst : Bool) : Setting where
  library := .ofFiles ⟨"/lib"⟩ none [".d.ts"]
    [⟨⟨"/lib/index.d.ts"⟩,
      { exports := [⟨"Button", .here "Button"⟩, ⟨"Button", .here "Button"⟩]
        declarations := if typeFirst then [buttonProps, buttonValue] else [buttonValue, buttonProps] }⟩]
  options := {}
  ids := .fresh .sha256
  fs := .memory []
  candidates := [⟨"", ⟨"/lib/index.js"⟩, ⟨"/lib/index.d.ts"⟩, ⟨"/lib/index.js"⟩, "", "Lib"⟩]

/-- The scope of an example that imports `Button` from the file. -/
def buttonScope (typeFirst : Bool) : Scope := ⟨(buttons typeFirst).library, 0, [⟨"Button", "./index", .named "Button"⟩]⟩

theorem buttons_oneTarget {typeFirst : Bool} : (buttons typeFirst).library.OneTarget 0 := by
  have hexports : ((buttons typeFirst).library.moduleAt 0).exports = [⟨"Button", .here "Button"⟩, ⟨"Button", .here "Button"⟩] := rfl
  intro e he e' he' _
  rw [hexports] at he he'
  simp at he he'
  rw [he, he']

theorem buttonScope_names {typeFirst : Bool} : (buttonScope typeFirst).Names 0 "Button" ["Button"] := by
  refine .imported (i := ⟨"Button", "./index", .named "Button"⟩) rfl ?_ rfl
  cases typeFirst <;> decide +kernel

/-- The value before the type: the tag gets the pattern of the component. -/
theorem a_component_before_its_type_is_named : ∃ r ∈ Registry.ofSetting (buttons false),
    r.key = ⟨0, 0⟩ ∧
    (buttons false).library.exported? 0 "Button" = some (.declaration r.key) ∧
    (buttonScope false).tag? ["Button"] >>=
      Registry.pattern? (buttons false) (Registry.ofSetting (buttons false)) =
        some r.build.identity := by
  have hmem : (⟨0, 0⟩ : DeclarationKey) ∈ (Registry.ofSetting (buttons false)).map (·.key) := by
    rw [Registry.keys_ofSetting]
    decide +kernel
  obtain ⟨r, hr, hkey⟩ := List.mem_map.mp hmem
  have hfree : ¬ (buttons false).library.TypeBefore ⟨0, 0⟩ := by
    rintro ⟨i, hi, -⟩
    exact absurd hi (Nat.not_lt_zero i)
  have hexport : ("Button", ⟨0, 0⟩) ∈ (buttons false).library.localExports 0 := by decide
  have hnamed := export_names_component_iff buttons_oneTarget hexport (by decide)
  refine ⟨r, hr, hkey, ?_, ?_⟩
  · rw [hkey]
    exact hnamed.1.mpr hfree
  · exact (hnamed.2 r hr hkey _ rfl _ buttonScope_names).mpr hfree

/-- The type before the value: the tag gets no pattern, although the component is registered. -/
theorem an_interface_hides_a_component : (buttons true).library.OneTarget 0 ∧
    ("Button", ⟨0, 1⟩) ∈ (buttons true).library.localExports 0 ∧
    (Component.shape? (buttons true).library {} ⟨0, 1⟩).isSome ∧
    (∃ r ∈ Registry.ofSetting (buttons true), r.key = ⟨0, 1⟩) ∧
    (buttons true).library.exported? 0 "Button" = some (.declaration ⟨0, 0⟩) ∧
    (buttonScope true).Names 0 "Button" ["Button"] ∧
    (buttonScope true).tag? ["Button"] >>= Registry.pattern? (buttons true)
      (Registry.ofSetting (buttons true)) = none := by
  have hexported : (buttons true).library.exported? 0 "Button" = some (.declaration ⟨0, 0⟩) := by
    decide
  have hmem : (⟨0, 1⟩ : DeclarationKey) ∈ (Registry.ofSetting (buttons true)).map (·.key) := by
    rw [Registry.keys_ofSetting]
    decide +kernel
  refine ⟨buttons_oneTarget, by decide, by decide, List.mem_map.mp hmem, hexported, buttonScope_names, ?_⟩
  rw [tag?_of_names buttonScope_names, buttonScope, hexported]
  exact Registry.pattern?_of_shapeless rfl

end Scope

end PatternCatalog
