/-
  PatternCatalog.Proofs.Library.Symbol — names lead to declarations that there are.

  A symbol enters a search among exports in three ways, and no step of a search makes a new one,
  so what holds of the symbols that enter holds of those that are found (`exportSearch_finds`).
  A declaration enters through `declared?`, which finds its place in the file. So a reference
  that leads to a declaration leads to one that the library has (`reference?_exists`).
-/

import PatternCatalog.Library.Symbol

namespace PatternCatalog

/-- Whether a symbol that is a declaration is one of the library. -/
def Symbol.Exists (l : Library) : Symbol → Prop
  | .declaration key => ∃ d, l.declaration? key = some d
  | _ => True

namespace Library

variable {l : Library}

/-! ## Searches -/

/-- A search that finds only symbols of a kind. -/
def Search.Finds (P : Symbol → Prop) (s : Search) : Prop := ∀ visited symbol, (s visited).1 = some symbol → P symbol

/-- A kind that has all the symbols which enter a search among exports. -/
structure HoldsEntering (l : Library) (P : Symbol → Prop) : Prop where
  external : ∀ module path, P (.external module path)
  namespace_ : ∀ file, P (.namespace_ file)
  declared : ∀ {file name key}, l.declared? file name .any = some key → P (.declaration key)

variable {P : Symbol → Prop}

theorem Search.nothing_finds : Search.nothing.Finds P := fun _ _ h => nomatch h

theorem Search.first_finds {ss : List Search} (h : ∀ s ∈ ss, s.Finds P) : (Search.first ss).Finds P := by
  induction ss with
  | nil => exact nothing_finds
  | cons s ss ih =>
    intro visited symbol hfirst
    dsimp only [Search.first] at hfirst
    rcases hs : s visited with ⟨_ | found, after⟩
    · rw [hs] at hfirst
      exact ih (fun t ht => h t (List.mem_cons_of_mem _ ht)) after symbol hfirst
    · rw [hs] at hfirst
      exact h s List.mem_cons_self visited symbol (by rw [hs]; exact hfirst)

section Steps

variable (hP : HoldsEntering l P) {search : Node → Search} (hsearch : ∀ node, (search node).Finds P)

include hP hsearch

theorem importSearch_finds (file : Nat) (source : String) (imported : Imported) :
    (l.importSearch search file source imported).Finds P := by
  unfold importSearch
  split
  · rintro _ _ ⟨⟩
    exact hP.external _ _
  · split
    · exact hsearch _
    · rintro _ _ ⟨⟩
      exact hP.namespace_ _

theorem localSearch_finds {file : Nat} {name : String} {space : Space}
    (hdeclared : ∀ key, l.declared? file name space = some key → P (.declaration key)) :
    (l.localSearch search file name space).Finds P := by
  unfold localSearch
  split
  · next key hkey =>
    rintro _ _ ⟨⟩
    exact hdeclared key hkey
  · split
    · exact importSearch_finds hP hsearch _ _ _
    · exact Search.nothing_finds

theorem targetSearch_finds (file : Nat) (target : ExportTarget) : (l.targetSearch search file target).Finds P := by
  cases target with
  | here name => exact localSearch_finds hP hsearch fun _ => hP.declared
  | elsewhere source imported => exact importSearch_finds hP hsearch _ _ _

omit hP in
theorem starSearch_finds (node : Node) (source : String) : (l.starSearch search node source).Finds P := by
  unfold starSearch
  split
  · exact hsearch _
  · exact Search.nothing_finds

theorem branches_finds (node : Node) : ∀ s ∈ l.branches search node, s.Finds P := by
  intro s hs
  rcases List.mem_append.mp hs with hs | hs
  · obtain ⟨e, -, rfl⟩ := List.mem_map.mp hs
    exact targetSearch_finds hP hsearch _ _
  · split at hs
    · cases hs
    · obtain ⟨source, -, rfl⟩ := List.mem_map.mp hs
      exact starSearch_finds hsearch _ _

end Steps

theorem exportSearch_finds (hP : HoldsEntering l P) (depth : Nat) (node : Node) : (l.exportSearch depth node).Finds P := by
  induction depth generalizing node with
  | zero => exact Search.nothing_finds
  | succ depth ih =>
    intro visited symbol h
    dsimp only [exportSearch] at h
    split at h
    · cases h
    · exact Search.first_finds (branches_finds hP ih node) _ _ h

theorem declared?_exists {file : Nat} {name : String} {space : Space} {key : DeclarationKey}
    (h : l.declared? file name space = some key) : ∃ d, l.declaration? key = some d := by
  obtain ⟨index, hindex, rfl⟩ := Option.map_eq_some_iff.mp h
  obtain ⟨hlt, -⟩ := List.findIdx?_eq_some_iff_getElem.mp hindex
  exact ⟨_, List.getElem?_eq_getElem hlt⟩

theorem holdsEntering_exists (l : Library) : HoldsEntering l (Symbol.Exists l) where
  external _ _ := trivial
  namespace_ _ := trivial
  declared := declared?_exists

/-! ## Names -/

theorem exported?_exists {file : Nat} {name : String} {symbol : Symbol} (h : l.exported? file name = some symbol) :
    symbol.Exists l := exportSearch_finds l.holdsEntering_exists _ _ _ _ h

theorem local?_exists {file : Nat} {name : String} {space : Space} {symbol : Symbol}
    (h : l.local? file name space = some symbol) : symbol.Exists l :=
  localSearch_finds l.holdsEntering_exists (exportSearch_finds l.holdsEntering_exists _) (fun _ => declared?_exists) _ _ h

theorem foldlM_segment?_exists {names : List String} {start symbol : Symbol} (hstart : start.Exists l)
    (h : names.foldlM l.segment? start = some symbol) : symbol.Exists l := by
  induction names generalizing start with
  | nil =>
    cases h
    exact hstart
  | cons name names ih =>
    obtain ⟨next, hnext, h⟩ := Option.bind_eq_some_iff.mp h
    refine ih ?_ h
    cases start with
    | declaration key => cases hnext
    | namespace_ file => exact exported?_exists hnext
    | external module path =>
      cases hnext
      trivial

theorem reference?_exists {file : Nat} {type : TypeExpr} {symbol : Symbol} (h : l.reference? file type = some symbol) :
    symbol.Exists l := by
  unfold reference? at h
  split at h
  · next specifier name _ =>
    cases name with
    | nil => cases h
    | cons first rest =>
      dsimp only [imported?] at h
      split at h
      · obtain ⟨start, hstart, h⟩ := Option.bind_eq_some_iff.mp h
        exact foldlM_segment?_exists (exported?_exists hstart) h
      · have hstart : Symbol.Exists l (.external specifier [first]) := trivial
        exact foldlM_segment?_exists hstart h
  · next name _ =>
    cases name with
    | nil => cases h
    | cons first rest =>
      obtain ⟨start, hstart, h⟩ := Option.bind_eq_some_iff.mp h
      exact foldlM_segment?_exists (local?_exists hstart) h
  · cases h

/-- What a reference means does not depend on its type arguments. -/
theorem reference?_arguments (file : Nat) (module : Option String) (name : List String) (args args' : List TypeExpr) :
    l.reference? file (.reference module name args) = l.reference? file (.reference module name args') := by
  cases module <;> rfl

end Library

end PatternCatalog
