/-
  PatternCatalog.Proofs.Dependencies — which modules a declaration file depends on.

  The dependencies of a module are the sources that its import and export statements name:
  once each (`dependencies_nodup`), in the order of the text (`dependencies_sublist`), and no
  others (`mem_dependencies`). The sources of its bindings, of its re-exports and of its star
  exports are among them. A module that only a type names, as in `import("./card").CardProps`,
  is not: the dependencies are complete exactly when every such module is named by a statement
  as well (`dependencies_complete_iff`), and there is a file for which they are not
  (`an_import_type_is_no_dependency`).
-/

import PatternCatalog.Module
import PatternCatalog.Proofs.Subterms

namespace PatternCatalog

/-- The module that a statement imports from or exports from. -/
def Script.Statement.source? : Script.Statement → Option String
  | .import source _ => some source
  | .exportList _ source => source
  | .exportAll source _ => some source
  | _ => none

def ExportTarget.source? : ExportTarget → Option String
  | .here _ => none
  | .elsewhere source _ => some source

namespace Module

open Script (DefaultExport DocTable Item Statement)

/-! ## Specifiers -/

/-- The modules that the types of a module name. -/
def typeSpecifiers (m : Module) : List String := m.types.filterMap TypeExpr.module?

/-- The modules that imports, re-exports and star exports name. -/
def bindingSpecifiers (m : Module) : List String :=
  m.imports.map (·.source) ++ m.exports.filterMap (·.target.source?) ++ m.starExports

/-- Every module specifier that occurs in a module. -/
def specifiers (m : Module) : List String := m.bindingSpecifiers ++ m.typeSpecifiers

/-- Whatever the module names, it says that it depends on. -/
def DependenciesComplete (m : Module) : Prop := ∀ s ∈ m.specifiers, s ∈ m.dependencies

instance (m : Module) : Decidable m.DependenciesComplete :=
  inferInstanceAs (Decidable (∀ s ∈ m.specifiers, s ∈ m.dependencies))

/-- The statements of a text; none where the text is outside the grammar. -/
def statements (text : String) : List Statement :=
  match Script.parse? dialect text with
  | some s => s.items.map (·.statement)
  | none => []

/-- The sources that the statements of a text name, in order. -/
def statementSources (text : String) : List String := (statements text).filterMap Statement.source?

/-! ## One statement -/

/-- The dependencies with one more source. -/
def dependenciesAfter (ds : List String) : Option String → List String
  | none => ds
  | some source => if ds.contains source then ds else ds ++ [source]

theorem addDependency_dependencies (m : Module) (source : String) :
    (m.addDependency source).dependencies = dependenciesAfter m.dependencies (some source) := by
  simp only [addDependency, dependenciesAfter]
  split <;> rfl

theorem addDependency_bindingSpecifiers (m : Module) (source : String) :
    (m.addDependency source).bindingSpecifiers = m.bindingSpecifiers := by
  unfold addDependency
  split <;> rfl

theorem addStatement_dependencies (m : Module) (doc : Option String) (st : Statement) :
    (m.addStatement doc st).dependencies = dependenciesAfter m.dependencies st.source? := by
  cases st with
  | «import» source bindings => exact addDependency_dependencies m source
  | exportList specifiers source =>
    cases source with
    | none => rfl
    | some source => exact addDependency_dependencies m source
  | exportAll source name =>
    cases name with
    | none => exact addDependency_dependencies m source
    | some name => exact addDependency_dependencies m source
  | exportDeclaration d => rfl
  | exportDefault d => cases d <;> rfl
  | exportAssignment name => rfl
  | declaration d => rfl
  | other => rfl

theorem addExports_bindingSpecifiers (m : Module) (es : List ExportEntry) (s : String) :
    s ∈ (m.addExports es).bindingSpecifiers ↔
      s ∈ m.bindingSpecifiers ∨ ∃ e ∈ es, e.target.source? = some s := by
  simp only [addExports, bindingSpecifiers, List.filterMap_append, List.mem_append, List.mem_filterMap]
  grind

/-- Exports of the file's own names bring no source. -/
theorem addExports_here (m : Module) {es : List ExportEntry} (hes : ∀ e ∈ es, e.target.source? = none) {s : String}
    (h : s ∈ (m.addExports es).bindingSpecifiers) : s ∈ m.bindingSpecifiers := by
  rcases (addExports_bindingSpecifiers m es s).mp h with h | ⟨e, he, hs⟩
  · exact h
  · rw [hes e he] at hs
    cases hs

theorem addDefault_bindingSpecifiers (m : Module) (doc : Option String) (d : DefaultExport) {s : String}
    (h : s ∈ (m.addDefault doc d).bindingSpecifiers) : s ∈ m.bindingSpecifiers := by
  cases d with
  | declaration d =>
    refine addExports_here _ (fun e he => ?_) h
    obtain ⟨d, -, rfl⟩ := List.mem_map.mp he
    rfl
  | name name =>
    refine addExports_here _ (fun e he => ?_) h
    rw [List.mem_singleton.mp he]
    rfl
  | expression => exact h

/-- What a statement binds, it binds from the module it names. -/
theorem addStatement_bindingSpecifiers (m : Module) (doc : Option String) (st : Statement) {s : String}
    (h : s ∈ (m.addStatement doc st).bindingSpecifiers) : s ∈ m.bindingSpecifiers ∨ st.source? = some s := by
  cases st with
  | «import» source bindings =>
    rw [← addDependency_bindingSpecifiers m source]
    simp only [addStatement, bindingSpecifiers, List.map_append, List.map_map, List.mem_append, List.mem_map] at h
    simp only [bindingSpecifiers, List.mem_append, List.mem_map, Statement.source?]
    rcases h with ((h | ⟨b, -, rfl⟩) | h) | h
    · exact Or.inl (Or.inl (Or.inl h))
    · exact Or.inr rfl
    · exact Or.inl (Or.inl (Or.inr h))
    · exact Or.inl (Or.inr h)
  | exportList specifiers source =>
    cases source with
    | none =>
      refine Or.inl (addExports_here m (fun e he => ?_) h)
      obtain ⟨x, -, rfl⟩ := List.mem_map.mp he
      rfl
    | some source =>
      rcases (addExports_bindingSpecifiers _ _ s).mp h with h | ⟨e, he, hs⟩
      · exact Or.inl (addDependency_bindingSpecifiers m source ▸ h)
      · obtain ⟨x, -, rfl⟩ := List.mem_map.mp he
        exact Or.inr hs
  | exportAll source name =>
    cases name with
    | none =>
      rw [← addDependency_bindingSpecifiers m source]
      simp only [addStatement, bindingSpecifiers, List.mem_append, List.mem_singleton] at h
      simp only [bindingSpecifiers, List.mem_append, Statement.source?]
      rcases h with h | h | rfl
      · exact Or.inl (Or.inl h)
      · exact Or.inl (Or.inr h)
      · exact Or.inr rfl
    | some name =>
      rcases (addExports_bindingSpecifiers _ _ s).mp h with h | ⟨e, he, hs⟩
      · exact Or.inl (addDependency_bindingSpecifiers m source ▸ h)
      · rw [List.mem_singleton.mp he] at hs
        exact Or.inr hs
  | exportDeclaration d =>
    refine Or.inl (addExports_here (m.addDeclarations _) (fun e he => ?_) h)
    obtain ⟨d, -, rfl⟩ := List.mem_map.mp he
    rfl
  | exportDefault d => exact Or.inl (addDefault_bindingSpecifiers m doc d h)
  | exportAssignment name =>
    refine Or.inl (addExports_here m (fun e he => ?_) h)
    obtain ⟨n, -, rfl⟩ := Option.map_eq_some_iff.mp (Option.mem_toList.mp he)
    rfl
  | declaration d => exact Or.inl h
  | other => exact Or.inl h

/-! ## All statements -/

/-- What reading statements keeps: the dependencies are the sources so far, and every binding has one of them. -/
structure Gathered (m : Module) (sources : List String) : Prop where
  nodup : m.dependencies.Nodup
  sublist : m.dependencies.Sublist sources
  mem : ∀ s ∈ sources, s ∈ m.dependencies
  bound : ∀ s ∈ m.bindingSpecifiers, s ∈ sources

theorem Gathered.addStatement {m : Module} {sources : List String} (h : Gathered m sources) (doc : Option String)
    (st : Statement) : Gathered (m.addStatement doc st) (sources ++ st.source?.toList) := by
  have hb : ∀ s ∈ (m.addStatement doc st).bindingSpecifiers, s ∈ sources ++ st.source?.toList := by
    intro s hs
    rcases addStatement_bindingSpecifiers m doc st hs with hs | hs
    · exact List.mem_append_left _ (h.bound s hs)
    · exact List.mem_append_right _ (by simp [hs])
  have hd := addStatement_dependencies m doc st
  cases ho : st.source? with
  | none =>
    rw [ho] at hd hb
    simp only [Option.toList_none, List.append_nil] at hb ⊢
    exact ⟨hd ▸ h.nodup, hd ▸ h.sublist, hd ▸ h.mem, hb⟩
  | some source =>
    rw [ho] at hd hb
    simp only [dependenciesAfter, List.contains_iff_mem] at hd
    by_cases hm : source ∈ m.dependencies
    · rw [if_pos hm] at hd
      refine ⟨hd ▸ h.nodup, hd ▸ h.sublist.trans (List.sublist_append_left _ _), fun s hs => ?_, hb⟩
      rw [hd]
      rcases List.mem_append.mp hs with hs | hs
      · exact h.mem s hs
      · exact List.mem_singleton.mp hs ▸ hm
    · rw [if_neg hm] at hd
      refine ⟨?_, hd ▸ h.sublist.append (List.Sublist.refl _), fun s hs => ?_, hb⟩
      · rw [hd, List.nodup_append]
        exact ⟨h.nodup, List.pairwise_singleton _ _, fun a ha b hb hab => hm (List.mem_singleton.mp hb ▸ hab ▸ ha)⟩
      · rw [hd]
        rcases List.mem_append.mp hs with hs | hs
        · exact List.mem_append_left _ (h.mem s hs)
        · exact List.mem_append_right _ hs

theorem Gathered.addItems {m : Module} {sources : List String} (h : Gathered m sources) (docs : DocTable)
    (items : List Item) :
    Gathered (items.foldl (addItem docs) m) (sources ++ (items.map (·.statement)).filterMap Statement.source?) := by
  induction items generalizing m sources with
  | nil => simpa using h
  | cons i items ih =>
    have hs := ih (h.addStatement (docs.docAt? i.start) i.statement)
    cases ho : i.statement.source? <;> simpa [ho, addItem] using hs

theorem parse_gathered (text : String) : Gathered (parse text) (statementSources text) := by
  have empty (doc : Option String) : Gathered { fileDoc := doc } [] :=
    ⟨List.nodup_nil, List.Sublist.refl _, nofun, nofun⟩
  unfold parse statementSources statements
  cases Script.parse? dialect text with
  | none => exact empty none
  | some s => simpa [ofItems] using (empty s.docs.fileDoc).addItems s.docs s.items

/-! ## Texts -/

theorem dependencies_nodup (text : String) : (parse text).dependencies.Nodup := (parse_gathered text).nodup

theorem dependencies_sublist (text : String) : (parse text).dependencies.Sublist (statementSources text) :=
  (parse_gathered text).sublist

theorem mem_dependencies (text : String) (s : String) :
    s ∈ (parse text).dependencies ↔ s ∈ statementSources text :=
  ⟨fun h => (dependencies_sublist text).subset h, (parse_gathered text).mem s⟩

/-- A file says all it depends on exactly when every module that a type of it names is also named by
    one of its import or export statements. -/
theorem dependencies_complete_iff (text : String) :
    (parse text).DependenciesComplete ↔
      ∀ s ∈ (parse text).typeSpecifiers, ∃ st ∈ statements text, st.source? = some s := by
  have hsource (s : String) : (∃ st ∈ statements text, st.source? = some s) ↔ s ∈ (parse text).dependencies := by
    rw [mem_dependencies, statementSources, List.mem_filterMap]
  constructor
  · intro h s hs
    exact (hsource s).mpr (h s (List.mem_append_right _ hs))
  · intro h s hs
    rcases List.mem_append.mp hs with hs | hs
    · exact (mem_dependencies text s).mpr ((parse_gathered text).bound s hs)
    · exact (hsource s).mp (h s hs)

/-- The file that holds the props type is named by the type of the component alone. -/
theorem an_import_type_is_no_dependency :
    ¬ (parse "export declare const Card: React.FC<import(\"./card\").CardProps>;").DependenciesComplete := by
  decide +kernel

end Module

end PatternCatalog
