/-
  PatternCatalog.Proofs.Library.Exports — what a file exports under a name, on every import graph.

  A branch of an export finds a symbol, goes on at the export of a file, or comes to nothing
  (`Library.outcomes`). A chain takes one branch after another until one finds a symbol
  (`Library.Chain`). There may be no end of chains, for they may go round in circles; of those
  that come to no node twice there are finitely many, and in the order of the branches one of
  them is the first. A search shares its visited nodes among all branches, so it turns back
  where it meets a node that a branch before came to in vain. All the same:
  - `exportSearch_eq`: the bound on the depth of a search never cuts it off.
  - `Explored`, `explored_dead`: a visited node that the search has left starts no chain that
    keeps clear of the nodes the search is still in.
  - `exportSearch_answers`: so one search gives the first chain that keeps clear of those, or
    has explored everything it came to.
  - `exports_resolve`: a name is resolved just when some chain leads to a symbol, and to the
    symbol of the first chain (`card_behind_a_circle`).
-/

import PatternCatalog.Library.Symbol
import PatternCatalog.Total
import Mathlib.Data.List.ProdSigma

namespace PatternCatalog

namespace Library

/-! ## Branches -/

/-- What a branch of an export comes to. -/
inductive Outcome where
  | found (symbol : Symbol)
  /-- The export at which the search goes on. -/
  | goesOn (next : Node)
  | nothing
  deriving DecidableEq, Repr

def Outcome.search (search : Node → Search) : Outcome → Search
  | .found symbol => fun visited => (some symbol, visited)
  | .goesOn next => search next
  | .nothing => .nothing

def importOutcome (l : Library) (file : Nat) (source : String) (imported : Imported) : Outcome :=
  match l.module? file source with
  | none => .found (.external source imported.exportName?.toList)
  | some target =>
    match imported.exportName? with
    | some name => .goesOn ⟨target, name⟩
    | none => .found (.namespace_ target)

/-- An entry for a local name leads to the first declaration of the name in the file, of whatever
kind, and if there is none to the first import of it. -/
def targetOutcome (l : Library) (file : Nat) : ExportTarget → Outcome
  | .here name =>
    match (l.moduleAt file).declarations.findIdx? (·.name == name) with
    | some index => .found (.declaration ⟨file, index⟩)
    | none =>
      match (l.moduleAt file).imports.find? (·.name == name) with
      | some i => l.importOutcome file i.source i.imported
      | none => .nothing
  | .elsewhere source imported => l.importOutcome file source imported

def starOutcome (l : Library) (node : Node) (source : String) : Outcome :=
  match l.module? node.file source with
  | some target => .goesOn ⟨target, node.name⟩
  | none => .nothing

/-- The branches of an export in search order: its entries, and unless it is `default` the star exports. -/
def outcomes (l : Library) (node : Node) : List Outcome :=
  let m := l.moduleAt node.file
  let entries := (m.exports.filter (·.exported == node.name)).map fun e => l.targetOutcome node.file e.target
  let stars := if node.name = "default" then [] else m.starExports.map (l.starOutcome node)
  entries ++ stars

variable {l : Library}

theorem importSearch_eq (search : Node → Search) (file : Nat) (source : String) (imported : Imported) :
    l.importSearch search file source imported = (l.importOutcome file source imported).search search := by
  unfold importSearch importOutcome
  cases l.module? file source with
  | none => rfl
  | some target => cases imported.exportName? <;> rfl

theorem declared?_any (l : Library) (file : Nat) (name : String) : l.declared? file name .any =
    ((l.moduleAt file).declarations.findIdx? (·.name == name)).map fun index => ⟨file, index⟩ := by
  simp only [declared?, Space.admits, Bool.and_true]

theorem targetSearch_eq (search : Node → Search) (file : Nat) (target : ExportTarget) :
    l.targetSearch search file target = (l.targetOutcome file target).search search := by
  cases target with
  | here name =>
    unfold targetSearch targetOutcome localSearch
    dsimp only
    rw [declared?_any]
    cases (l.moduleAt file).declarations.findIdx? (·.name == name) with
    | some index => rfl
    | none =>
      dsimp only [Option.map_none]
      cases (l.moduleAt file).imports.find? (·.name == name) with
      | some i => exact importSearch_eq _ _ _ _
      | none => rfl
  | elsewhere source imported => exact importSearch_eq _ _ _ _

theorem starSearch_eq (search : Node → Search) (node : Node) (source : String) :
    l.starSearch search node source = (l.starOutcome node source).search search := by
  unfold starSearch starOutcome
  cases l.module? node.file source <;> rfl

theorem branches_eq (search : Node → Search) (node : Node) :
    l.branches search node = (l.outcomes node).map (Outcome.search search) := by
  unfold branches outcomes
  dsimp only
  rw [List.map_append, List.map_map]
  congr 1
  · exact List.map_congr_left fun e _ => targetSearch_eq _ _ _
  · split
    · rfl
    · rw [List.map_map]
      exact List.map_congr_left fun source _ => starSearch_eq _ _ _

/-! ## Chains -/

/-- A chain of branches that leads from an export to a symbol: the nodes that it comes to, each
with the place of the branch that it takes there. -/
inductive Chain (l : Library) : Node → List (Node × Nat) → Symbol → Prop
  | last {node : Node} {i : Nat} {symbol : Symbol} (h : (l.outcomes node)[i]? = some (.found symbol)) :
      Chain l node [(node, i)] symbol
  | step {node next : Node} {i : Nat} {steps : List (Node × Nat)} {symbol : Symbol}
      (h : (l.outcomes node)[i]? = some (.goesOn next)) (rest : Chain l next steps symbol) :
      Chain l node ((node, i) :: steps) symbol

/-- Whether a chain comes to no node twice. -/
def Simple (steps : List (Node × Nat)) : Prop := (steps.map (·.1)).Nodup

/-- Whether a chain comes to none of these nodes. -/
def Clear (before : List Node) (steps : List (Node × Nat)) : Prop := ∀ step ∈ steps, step.1 ∉ before

/-- The first of the chains that come to no node twice, in the order of the branches taken. -/
structure FirstChain (l : Library) (node : Node) (steps : List (Node × Nat)) (symbol : Symbol) : Prop where
  chain : l.Chain node steps symbol
  simple : Simple steps
  first : ∀ others other, l.Chain node others other → Simple others → (steps.map (·.2)).le (others.map (·.2))

theorem Chain.head {node : Node} {steps : List (Node × Nat)} {symbol : Symbol} (h : l.Chain node steps symbol) :
    ∃ i rest, steps = (node, i) :: rest := by
  cases h with
  | last _ => exact ⟨_, _, rfl⟩
  | step _ _ => exact ⟨_, _, rfl⟩

theorem Clear.cons {before : List Node} {node : Node} {i : Nat} {steps : List (Node × Nat)} (h : Clear before steps)
    (hsimple : Simple ((node, i) :: steps)) : Clear (node :: before) steps := by
  intro step hstep hmem
  rcases List.mem_cons.mp hmem with hnode | hmem
  · exact (List.nodup_cons.mp hsimple).1 (List.mem_map.mpr ⟨step, hstep, hnode⟩)
  · exact h step hstep hmem

/-! ## Explored nodes -/

/-- Whether a branch can lead on from visited nodes only. -/
def Outcome.Spent (visited : List Node) : Outcome → Prop
  | .found _ => False
  | .goesOn next => next ∈ visited
  | .nothing => True

theorem Outcome.Spent.mono {visited after : List Node} (hsub : visited ⊆ after) {o : Outcome} (h : o.Spent visited) :
    o.Spent after := by
  cases o with
  | found _ => exact h
  | goesOn _ => exact hsub h
  | nothing => trivial

/-- Whether every visited node that the search is no longer in has had all its branches. -/
def Explored (l : Library) (before visited : List Node) : Prop :=
  ∀ node ∈ visited, node ∉ before → ∀ o ∈ l.outcomes node, o.Spent visited

/-- A chain from an explored node comes to a node that the search is still in. -/
theorem explored_dead {before visited : List Node} (h : l.Explored before visited) {node : Node} (hnode : node ∈ visited)
    {steps : List (Node × Nat)} {symbol : Symbol} (hchain : l.Chain node steps symbol) : ¬ Clear before steps := by
  induction hchain with
  | last hfound =>
    intro hclear
    exact h _ hnode (hclear _ List.mem_cons_self) _ (List.mem_of_getElem? hfound)
  | step hon _ ih =>
    intro hclear
    have hnext := h _ hnode (hclear _ List.mem_cons_self) _ (List.mem_of_getElem? hon)
    exact ih hnext fun step hstep => hclear step (List.mem_cons_of_mem _ hstep)

/-- Entering a node leaves what was explored so. -/
theorem Explored.enter {before visited : List Node} (h : l.Explored before visited) (node : Node) :
    l.Explored (node :: before) (node :: visited) := by
  intro x hx hbefore o ho
  rw [List.mem_cons, not_or] at hbefore
  have hold : x ∈ visited := (List.mem_cons.mp hx).resolve_left hbefore.1
  exact (h x hold hbefore.2 o ho).mono (List.subset_cons_self _ _)

/-- A node may be left once all its branches have been taken in vain. -/
theorem Explored.leave {before visited : List Node} {node : Node} (h : l.Explored (node :: before) visited)
    (hspent : ∀ o ∈ l.outcomes node, o.Spent visited) : l.Explored before visited := by
  intro x hx hbefore
  by_cases hxnode : x = node
  · rw [hxnode]
    exact hspent
  · exact h x hx (by simp [hxnode, hbefore])

/-! ## What a search gives -/

/-- The chains that begin where a branch leads, clear of the nodes before it. -/
def Outcome.Leads (l : Library) (before : List Node) : Outcome → List (Node × Nat) → Symbol → Prop
  | .found symbol, steps, other => steps = [] ∧ symbol = other
  | .goesOn next, steps, other => l.Chain next steps other ∧ Simple steps ∧ Clear before steps
  | .nothing, _, _ => False

/-- The first of these chains. -/
def Outcome.LeadsFirst (l : Library) (before : List Node) (o : Outcome) (steps : List (Node × Nat)) (symbol : Symbol) : Prop :=
  o.Leads l before steps symbol ∧ ∀ others other, o.Leads l before others other → (steps.map (·.2)).le (others.map (·.2))

theorem Outcome.Spent.dead {before visited : List Node} (h : l.Explored before visited) {o : Outcome} (ho : o.Spent visited)
    (steps : List (Node × Nat)) (symbol : Symbol) : ¬ o.Leads l before steps symbol := by
  cases o with
  | found _ => exact ho.elim
  | goesOn _ => exact fun hleads => explored_dead h ho hleads.1 hleads.2.2
  | nothing => exact id

/-- The chains from a node are those that its branches lead to. -/
theorem leads_iff {before : List Node} {node : Node} {steps : List (Node × Nat)} {symbol : Symbol} :
    (Outcome.goesOn node).Leads l before steps symbol ↔ node ∉ before ∧ ∃ i o rest, steps = (node, i) :: rest ∧
      (l.outcomes node)[i]? = some o ∧ o.Leads l (node :: before) rest symbol := by
  constructor
  · rintro ⟨hchain, hsimple, hclear⟩
    cases hchain with
    | last h => exact ⟨hclear _ List.mem_cons_self, _, _, _, rfl, h, rfl, rfl⟩
    | step h rest =>
      have hrest : Clear before _ := fun step hstep => hclear step (List.mem_cons_of_mem _ hstep)
      exact ⟨hclear _ List.mem_cons_self, _, _, _, rfl, h, rest, (List.nodup_cons.mp hsimple).2, hrest.cons hsimple⟩
  · rintro ⟨hnode, i, o, rest, rfl, ho, hleads⟩
    cases o with
    | nothing => exact hleads.elim
    | found symbol =>
      obtain ⟨rfl, rfl⟩ := hleads
      refine ⟨.last ho, by simp [Simple], fun step hstep => ?_⟩
      rw [List.mem_singleton.mp hstep]
      exact hnode
    | goesOn next =>
      obtain ⟨hchain, hsimple, hclear⟩ := hleads
      refine ⟨.step ho hchain, List.nodup_cons.mpr ⟨fun hmem => ?_, hsimple⟩, fun step hstep => ?_⟩
      · obtain ⟨step, hstep, hsame⟩ := List.mem_map.mp hmem
        exact hclear step hstep (hsame ▸ List.mem_cons_self)
      · rcases List.mem_cons.mp hstep with rfl | hstep
        · exact hnode
        · exact fun hmem => hclear step hstep (List.mem_cons_of_mem _ hmem)

/-- What a search may give that goes on at a branch: the first chain clear of the nodes it is
still in, or that all it came to is explored. -/
def Answers (l : Library) (before : List Node) (o : Outcome) : Visit → Prop
  | (some symbol, _) => ∃ steps, o.LeadsFirst l before steps symbol
  | (none, after) => l.Explored before after ∧ o.Spent after

/-- What the searches of several branches may give, one after the other. -/
def AnswersAll (l : Library) (before : List Node) (os : List Outcome) : Visit → Prop
  | (some symbol, _) => ∃ (i : Nat) (o : Outcome) (steps : List (Node × Nat)), os[i]? = some o ∧
      o.LeadsFirst l before steps symbol ∧
      ∀ j < i, ∀ p : Outcome, os[j]? = some p → ∀ others other, ¬ p.Leads l before others other
  | (none, after) => l.Explored before after ∧ ∀ o ∈ os, o.Spent after

theorem Outcome.search_grows {search : Node → Search} (h : ∀ node visited, visited ⊆ (search node visited).2) (o : Outcome)
    (visited : List Node) : visited ⊆ (o.search search visited).2 := by
  cases o with
  | found _ => exact List.Subset.refl _
  | goesOn next => exact h next visited
  | nothing => exact List.Subset.refl _

theorem first_grows {search : Node → Search} (h : ∀ node visited, visited ⊆ (search node visited).2) (os : List Outcome)
    (visited : List Node) : visited ⊆ (Search.first (os.map (Outcome.search search)) visited).2 := by
  induction os generalizing visited with
  | nil => exact List.Subset.refl _
  | cons o os ih =>
    have ho := o.search_grows h visited
    rw [List.map_cons]
    dsimp only [Search.first]
    rcases hv : o.search search visited with ⟨_ | symbol, after⟩
    · rw [hv] at ho
      exact List.Subset.trans ho (ih after)
    · rw [hv] at ho
      exact ho

theorem exportSearch_of_visited (depth : Nat) {node : Node} {visited : List Node} (h : node ∈ visited) :
    l.exportSearch depth node visited = (none, visited) := by
  cases depth with
  | zero => rfl
  | succ depth => exact if_pos (List.contains_iff_mem.mpr h)

theorem exportSearch_of_new (depth : Nat) {node : Node} {visited : List Node} (h : node ∉ visited) :
    l.exportSearch (depth + 1) node visited =
      Search.first ((l.outcomes node).map (Outcome.search (l.exportSearch depth))) (node :: visited) := by
  rw [← branches_eq]
  exact if_neg fun hcontains => h (List.contains_iff_mem.mp hcontains)

theorem exportSearch_grows (depth : Nat) (node : Node) (visited : List Node) :
    visited ⊆ (l.exportSearch depth node visited).2 := by
  induction depth generalizing node visited with
  | zero => exact List.Subset.refl _
  | succ depth ih =>
    by_cases hvisited : node ∈ visited
    · rw [exportSearch_of_visited _ hvisited]
      exact List.Subset.refl _
    · rw [exportSearch_of_new _ hvisited]
      exact List.Subset.trans (List.subset_cons_self node visited) (first_grows ih _ _)

/-- The step of a search: branch after branch, each given what the ones before it visited. -/
theorem first_answers {search : Node → Search} (hgrows : ∀ node visited, visited ⊆ (search node visited).2)
    {before start : List Node} {os : List Outcome}
    (hsearch : ∀ next, .goesOn next ∈ os → ∀ visited, start ⊆ visited → l.Explored before visited →
      l.Answers before (.goesOn next) (search next visited))
    {visited : List Node} (hstart : start ⊆ visited) (h : l.Explored before visited) :
    l.AnswersAll before os (Search.first (os.map (Outcome.search search)) visited) := by
  induction os generalizing visited with
  | nil => exact ⟨h, fun o ho => nomatch ho⟩
  | cons o os ih =>
    have hgrowso := o.search_grows hgrows visited
    have ho : l.Answers before o (o.search search visited) := by
      cases o with
      | found symbol => exact ⟨[], ⟨rfl, rfl⟩, fun _ _ _ => List.nil_le _⟩
      | goesOn next => exact hsearch next List.mem_cons_self visited hstart h
      | nothing => exact ⟨h, trivial⟩
    rw [List.map_cons]
    dsimp only [Search.first]
    rcases hv : o.search search visited with ⟨_ | symbol, after⟩
    · rw [hv] at ho hgrowso
      obtain ⟨hexplored, hspent⟩ := ho
      have hrest := ih (fun next hnext => hsearch next (List.mem_cons_of_mem _ hnext)) (List.Subset.trans hstart hgrowso)
        hexplored
      have hgrowsrest := first_grows hgrows os after
      dsimp only
      rcases hf : Search.first (os.map (Outcome.search search)) after with ⟨_ | symbol, last⟩
      · rw [hf] at hrest hgrowsrest
        refine ⟨hrest.1, fun p hp => ?_⟩
        rcases List.mem_cons.mp hp with rfl | hp
        · exact hspent.mono hgrowsrest
        · exact hrest.2 p hp
      · rw [hf] at hrest
        obtain ⟨i, p, steps, hp, hfirst, hdead⟩ := hrest
        refine ⟨i + 1, p, steps, hp, hfirst, fun j hj q hq => ?_⟩
        cases j with
        | zero =>
          obtain rfl : o = q := Option.some.inj hq
          exact hspent.dead hexplored
        | succ j => exact hdead j (Nat.lt_of_succ_lt_succ hj) q hq
    · rw [hv] at ho
      obtain ⟨steps, hfirst⟩ := ho
      exact ⟨0, o, steps, rfl, hfirst, fun j hj => absurd hj (Nat.not_lt_zero j)⟩

/-- A node answers as its branches do, unless the search is in it already. -/
theorem answers_of_branches {before : List Node} {node : Node} {v : Visit} (hnode : node ∉ before) (hvisited : node ∈ v.2)
    (h : l.AnswersAll (node :: before) (l.outcomes node) v) : l.Answers before (.goesOn node) v := by
  obtain ⟨_ | symbol, after⟩ := v
  · exact ⟨h.1.leave h.2, hvisited⟩
  · obtain ⟨i, o, steps, ho, ⟨hleads, hfirst⟩, hdead⟩ := h
    refine ⟨(node, i) :: steps, leads_iff.mpr ⟨hnode, i, o, steps, rfl, ho, hleads⟩, fun others other hother => ?_⟩
    obtain ⟨-, j, p, rest, rfl, hp, hrest⟩ := leads_iff.mp hother
    refine List.cons_le_cons_iff.mpr ?_
    rcases Nat.lt_trichotomy i j with hij | rfl | hji
    · exact .inl hij
    · obtain rfl : o = p := Option.some.inj (ho.symm.trans hp)
      exact .inr ⟨rfl, hfirst rest other hrest⟩
    · exact absurd hrest (hdead j hji p hp rest other)

/-! ## The nodes of one search -/

def importedName? : ExportTarget → Option String
  | .here _ => none
  | .elsewhere _ imported => imported.exportName?

/-- The names that a search can come to. -/
def namesFrom (l : Library) (name : String) : List String :=
  name :: l.files.flatMap fun f =>
    f.module.exports.filterMap (importedName? ·.target) ++ f.module.imports.filterMap (·.imported.exportName?)

/-- The nodes that a search can come to. -/
def nodesFrom (l : Library) (node : Node) : List Node :=
  ((node.file :: List.range l.files.length) ×ˢ l.namesFrom node.name).map fun (file, name) => ⟨file, name⟩

theorem mem_nodesFrom {start node : Node} : node ∈ l.nodesFrom start ↔
    (node.file = start.file ∨ node.file < l.files.length) ∧ node.name ∈ l.namesFrom start.name := by
  constructor
  · intro h
    obtain ⟨⟨file, name⟩, hmem, rfl⟩ := List.mem_map.mp h
    obtain ⟨hfile, hname⟩ := List.mem_product.mp hmem
    exact ⟨by simpa using hfile, hname⟩
  · rintro ⟨hfile, hname⟩
    exact List.mem_map.mpr ⟨(node.file, node.name), List.mem_product.mpr ⟨by simpa using hfile, hname⟩, rfl⟩

theorem nodesFrom_length (node : Node) : (l.nodesFrom node).length ≤ l.nodeBound := by
  have hnames : (l.namesFrom node.name).length ≤
      total (l.files.map fun f => f.module.exports.length + f.module.imports.length) + 1 := by
    unfold namesFrom
    rw [List.length_cons, length_flatMap_total]
    refine Nat.succ_le_succ (total_map_le fun f _ => ?_)
    rw [List.length_append]
    exact Nat.add_le_add (List.length_filterMap_le _ _) (List.length_filterMap_le _ _)
  unfold nodesFrom nodeBound
  rw [List.length_map, List.length_product, List.length_cons, List.length_range]
  exact Nat.mul_le_mul_left _ hnames

theorem file?_lt {p : Path} {file : Nat} (h : l.file? p = some file) : file < l.files.length := by
  obtain ⟨⟨f, i⟩, hfind, rfl⟩ := Option.map_eq_some_iff.mp h
  have hmem := List.mem_reverse.mp (List.mem_of_find?_eq_some hfind)
  obtain ⟨-, hlt, -⟩ := List.mem_zipIdx hmem
  simpa using hlt

theorem candidateFile?_lt {dir : Path} {specifier : String} {file : Nat} (h : l.candidateFile? dir specifier = some file) :
    file < l.files.length := by
  obtain ⟨p, -, hp⟩ := List.exists_of_findSome?_eq_some h
  exact file?_lt hp

/-- A specifier leads from a file of the library to a file of it. -/
theorem module?_lt {file target : Nat} {specifier : String} (hfiles : 0 < l.files.length)
    (h : l.module? file specifier = some target) : target < l.files.length := by
  unfold module? at h
  split at h
  · split at h
    · cases h
      exact hfiles
    · exact candidateFile?_lt h
  · split at h
    · cases h
    · obtain ⟨f, -, h⟩ := Option.bind_eq_some_iff.mp h
      obtain ⟨dir, -, h⟩ := Option.bind_eq_some_iff.mp h
      exact candidateFile?_lt h

theorem goesOn_of_import {file : Nat} {source : String} {imported : Imported} {next : Node}
    (h : l.importOutcome file source imported = .goesOn next) :
    l.module? file source = some next.file ∧ imported.exportName? = some next.name := by
  unfold importOutcome at h
  split at h
  · cases h
  · next target htarget =>
    split at h
    · next name hname =>
      cases h
      exact ⟨htarget, hname⟩
    · cases h

/-- Where a branch goes on, a search that comes to the node can come to. -/
theorem next_mem {start node next : Node} (hnode : node ∈ l.nodesFrom start) (h : .goesOn next ∈ l.outcomes node) :
    next ∈ l.nodesFrom start := by
  rw [mem_nodesFrom] at hnode ⊢
  unfold outcomes moduleAt at h
  cases hf : l.files[node.file]? with
  | none => simp [hf] at h
  | some f =>
    have hmem : f ∈ l.files := List.mem_of_getElem? hf
    have hfiles : 0 < l.files.length := List.length_pos_of_mem hmem
    have himported : ∀ name, name ∈ f.module.exports.filterMap (importedName? ·.target) ++
        f.module.imports.filterMap (·.imported.exportName?) → name ∈ l.namesFrom start.name := fun name hname =>
      List.mem_cons_of_mem _ (List.mem_flatMap.mpr ⟨f, hmem, hname⟩)
    simp only [hf] at h
    rcases List.mem_append.mp h with h | h
    · obtain ⟨e, he, htarget⟩ := List.mem_map.mp h
      have he : e ∈ f.module.exports := (List.mem_filter.mp he).1
      unfold targetOutcome moduleAt at htarget
      split at htarget
      · simp only [hf] at htarget
        split at htarget
        · cases htarget
        · split at htarget
          · next i hi =>
            obtain ⟨hmodule, hname⟩ := goesOn_of_import htarget
            have hi : i ∈ f.module.imports := List.mem_of_find?_eq_some hi
            exact ⟨.inr (module?_lt hfiles hmodule),
              himported _ (List.mem_append_right _ (List.mem_filterMap.mpr ⟨i, hi, hname⟩))⟩
          · cases htarget
      · next source imported htargete =>
        obtain ⟨hmodule, hname⟩ := goesOn_of_import htarget
        have hname : importedName? e.target = some next.name := by rw [htargete]; exact hname
        exact ⟨.inr (module?_lt hfiles hmodule),
          himported _ (List.mem_append_left _ (List.mem_filterMap.mpr ⟨e, he, hname⟩))⟩
    · split at h
      · cases h
      · obtain ⟨source, -, hstar⟩ := List.mem_map.mp h
        unfold starOutcome at hstar
        split at hstar
        · next target hmodule =>
          cases hstar
          exact ⟨.inr (module?_lt hfiles hmodule), hnode.2⟩
        · cases hstar

/-! ## Searches -/

/-- Whether every node that a search can come to is visited or among those left. -/
def Left (l : Library) (start : Node) (left visited : List Node) : Prop :=
  ∀ node ∈ l.nodesFrom start, node ∈ visited ∨ node ∈ left

theorem Left.mono {start : Node} {left visited after : List Node} (h : l.Left start left visited) (hsub : visited ⊆ after) :
    l.Left start left after := fun node hnode => (h node hnode).imp_left (@hsub node)

/-- Entering a node leaves one node less. -/
theorem Left.enter {start node : Node} {left visited : List Node} (h : l.Left start left visited)
    (hnode : node ∈ l.nodesFrom start) (hnew : node ∉ visited) :
    l.Left start (left.erase node) (node :: visited) ∧ (left.erase node).length + 1 = left.length := by
  have hmem : node ∈ left := (h node hnode).resolve_left hnew
  refine ⟨fun x hx => ?_, ?_⟩
  · by_cases hsame : x = node
    · exact .inl (hsame ▸ List.mem_cons_self)
    · exact (h x hx).imp (List.mem_cons_of_mem _) fun hleft => (List.mem_erase_of_ne hsame).mpr hleft
  · have hpos : 0 < left.length := List.length_pos_of_mem hmem
    rw [List.length_erase_of_mem hmem]
    omega

theorem Left.visited_of_nil {start node : Node} {left visited : List Node} (h : l.Left start left visited)
    (hnode : node ∈ l.nodesFrom start) (hleft : left.length ≤ 0) : node ∈ visited := by
  obtain rfl := List.length_eq_zero_iff.mp (Nat.le_zero.mp hleft)
  exact (h node hnode).resolve_right List.not_mem_nil

theorem Left.all (start : Node) (visited : List Node) : l.Left start (l.nodesFrom start) visited := fun _ hnode => .inr hnode

theorem mem_nodesFrom_self (node : Node) : node ∈ l.nodesFrom node := mem_nodesFrom.mpr ⟨.inl rfl, List.mem_cons_self⟩

theorem first_congr {f g : Node → Search} (hgrows : ∀ node visited, visited ⊆ (f node visited).2) {start : List Node}
    {os : List Outcome} (h : ∀ next, .goesOn next ∈ os → ∀ visited, start ⊆ visited → f next visited = g next visited)
    {visited : List Node} (hstart : start ⊆ visited) :
    Search.first (os.map (Outcome.search f)) visited = Search.first (os.map (Outcome.search g)) visited := by
  induction os generalizing visited with
  | nil => rfl
  | cons o os ih =>
    have hgrowso := o.search_grows hgrows visited
    have ho : o.search f visited = o.search g visited := by
      cases o with
      | goesOn next => exact h next List.mem_cons_self visited hstart
      | found _ => rfl
      | nothing => rfl
    rw [List.map_cons, List.map_cons]
    dsimp only [Search.first]
    rw [← ho]
    rcases hv : o.search f visited with ⟨_ | symbol, after⟩
    · rw [hv] at hgrowso
      exact ih (fun next hnext => h next (List.mem_cons_of_mem _ hnext)) (List.Subset.trans hstart hgrowso)
    · rfl

/-- A search as deep as there are nodes left is not changed by more depth. -/
theorem exportSearch_succ {start : Node} (depth : Nat) {node : Node} (hnode : node ∈ l.nodesFrom start)
    {left visited : List Node} (hleft : l.Left start left visited) (hdepth : left.length ≤ depth) :
    l.exportSearch depth node visited = l.exportSearch (depth + 1) node visited := by
  induction depth generalizing node left visited with
  | zero =>
    have hvisited := hleft.visited_of_nil hnode hdepth
    rw [exportSearch_of_visited _ hvisited, exportSearch_of_visited _ hvisited]
  | succ depth ih =>
    by_cases hvisited : node ∈ visited
    · rw [exportSearch_of_visited _ hvisited, exportSearch_of_visited _ hvisited]
    · obtain ⟨hleft', hlength⟩ := hleft.enter hnode hvisited
      rw [exportSearch_of_new _ hvisited, exportSearch_of_new _ hvisited]
      refine first_congr (exportSearch_grows depth) (fun next hnext after hsub => ?_) (List.Subset.refl (node :: visited))
      exact ih (next_mem hnode hnext) (hleft'.mono hsub) (by omega)

/-- The bound on the depth of a search never cuts it off. -/
theorem exportSearch_eq {depth : Nat} (h : l.nodeBound ≤ depth) (node : Node) : l.exportSearch depth node = l.search node := by
  have hsame : ∀ n, l.exportSearch (l.nodeBound + n) node = l.exportSearch l.nodeBound node := by
    intro n
    induction n with
    | zero => rfl
    | succ n ih =>
      rw [← ih]
      funext visited
      have hlength : (l.nodesFrom node).length ≤ l.nodeBound + n := Nat.le_add_right_of_le (nodesFrom_length node)
      exact (exportSearch_succ _ (mem_nodesFrom_self node) (.all node visited) hlength).symm
  obtain ⟨n, rfl⟩ := Nat.exists_eq_add_of_le h
  rw [hsame n]
  exact (hsame 1).symm

/-- A search gives the first chain clear of the nodes it is still in, or has explored all it came to. -/
theorem exportSearch_answers {start : Node} (depth : Nat) {node : Node} (hnode : node ∈ l.nodesFrom start)
    {before left visited : List Node} (hbefore : before ⊆ visited) (h : l.Explored before visited)
    (hleft : l.Left start left visited) (hdepth : left.length ≤ depth) :
    l.Answers before (.goesOn node) (l.exportSearch depth node visited) := by
  induction depth generalizing node before left visited with
  | zero =>
    have hvisited := hleft.visited_of_nil hnode hdepth
    exact ⟨h, hvisited⟩
  | succ depth ih =>
    by_cases hvisited : node ∈ visited
    · rw [exportSearch_of_visited _ hvisited]
      exact ⟨h, hvisited⟩
    · obtain ⟨hleft', hlength⟩ := hleft.enter hnode hvisited
      have hgrows := exportSearch_grows (l := l) depth
      rw [exportSearch_of_new _ hvisited]
      refine answers_of_branches (fun hmem => hvisited (hbefore hmem)) (first_grows hgrows _ _ List.mem_cons_self) ?_
      refine first_answers hgrows (fun next hnext after hsub hafter => ?_) (List.Subset.refl _) (h.enter node)
      have hin : node :: before ⊆ after := List.Subset.trans (List.cons_subset_cons node hbefore) hsub
      exact ih (next_mem hnode hnext) hin hafter (hleft'.mono hsub) (by omega)

/-! ## Exports -/

theorem explored_nil : l.Explored [] [] := fun _ hnode => nomatch hnode

/-- The symbol of the first chain is the one that a search finds. -/
theorem search_answers (node : Node) : l.Answers [] (.goesOn node) (l.search node []) :=
  exportSearch_answers _ (mem_nodesFrom_self node) (List.Subset.refl _) explored_nil (.all node [])
    (Nat.le_succ_of_le (nodesFrom_length node))

theorem leadsFirst_iff {node : Node} {steps : List (Node × Nat)} {symbol : Symbol} :
    (Outcome.goesOn node).LeadsFirst l [] steps symbol ↔ l.FirstChain node steps symbol := by
  have hclear : ∀ steps, Clear [] steps := fun _ _ _ => List.not_mem_nil
  constructor
  · rintro ⟨⟨hchain, hsimple, -⟩, hfirst⟩
    exact ⟨hchain, hsimple, fun others other h hothers => hfirst others other ⟨h, hothers, hclear others⟩⟩
  · rintro ⟨hchain, hsimple, hfirst⟩
    exact ⟨⟨hchain, hsimple, hclear steps⟩, fun others other h => hfirst others other h.1 h.2.1⟩

/-- How the exports of a library are resolved. -/
structure ResolvesExports (l : Library) : Prop where
  /-- The search ends by itself: it comes to no more nodes however deep it may go. -/
  ends : ∀ depth ≥ l.nodeBound, ∀ node, l.exportSearch depth node = l.search node
  complete : ∀ file name, (l.exported? file name).isSome ↔ ∃ steps symbol, l.Chain ⟨file, name⟩ steps symbol
  first : ∀ file name symbol, l.exported? file name = some symbol ↔ ∃ steps, l.FirstChain ⟨file, name⟩ steps symbol

/-- The branches taken tell where a chain leads. -/
theorem Chain.unique {node : Node} {steps others : List (Node × Nat)} {symbol other : Symbol} (h : l.Chain node steps symbol)
    (hother : l.Chain node others other) (hplaces : steps.map (·.2) = others.map (·.2)) : symbol = other := by
  induction h generalizing others with
  | last hfound =>
    cases hother with
    | last hfound' =>
      obtain ⟨rfl, -⟩ := List.cons.inj hplaces
      exact Outcome.found.inj (Option.some.inj (hfound.symm.trans hfound'))
    | step _ hrest =>
      obtain ⟨i, rest, rfl⟩ := hrest.head
      cases hplaces
  | step hon hrest ih =>
    cases hother with
    | last _ =>
      obtain ⟨i, rest, rfl⟩ := hrest.head
      cases hplaces
    | step hon' hrest' =>
      simp only [List.map_cons, List.cons.injEq] at hplaces
      obtain ⟨rfl, hplaces⟩ := hplaces
      obtain rfl := Outcome.goesOn.inj (Option.some.inj (hon.symm.trans hon'))
      exact ih hrest' hplaces

theorem FirstChain.unique {node : Node} {steps others : List (Node × Nat)} {symbol other : Symbol}
    (h : l.FirstChain node steps symbol) (hother : l.FirstChain node others other) : symbol = other :=
  h.chain.unique hother.chain
    (List.le_antisymm (h.first _ _ hother.chain hother.simple) (hother.first _ _ h.chain h.simple))

/-- A name resolves just when a chain leads to a symbol, and then to the symbol of the first chain. -/
theorem exports_resolve (l : Library) : l.ResolvesExports := by
  have hfound : ∀ {file name symbol}, l.exported? file name = some symbol →
      ∃ steps, l.FirstChain ⟨file, name⟩ steps symbol := by
    intro file name symbol h
    have hanswer := l.search_answers ⟨file, name⟩
    unfold exported? at h
    rcases hv : l.search ⟨file, name⟩ [] with ⟨found, after⟩
    rw [hv] at h hanswer
    obtain rfl : found = some symbol := h
    obtain ⟨steps, hsteps⟩ := hanswer
    exact ⟨steps, leadsFirst_iff.mp hsteps⟩
  have hchain : ∀ {file name steps symbol}, l.Chain ⟨file, name⟩ steps symbol →
      ∃ other, l.exported? file name = some other := by
    intro file name steps symbol hchain
    have hanswer := l.search_answers ⟨file, name⟩
    unfold exported?
    rcases hv : l.search ⟨file, name⟩ [] with ⟨_ | other, after⟩
    · rw [hv] at hanswer
      exact absurd (fun _ _ => List.not_mem_nil) (explored_dead hanswer.1 hanswer.2 hchain)
    · exact ⟨other, rfl⟩
  refine ⟨fun depth hdepth node => exportSearch_eq hdepth node, fun file name => ⟨fun h => ?_, ?_⟩,
    fun file name symbol => ⟨hfound, ?_⟩⟩
  · obtain ⟨symbol, hsymbol⟩ := Option.isSome_iff_exists.mp h
    obtain ⟨steps, hfirst⟩ := hfound hsymbol
    exact ⟨steps, symbol, hfirst.chain⟩
  · rintro ⟨steps, symbol, h⟩
    exact Option.isSome_iff_exists.mpr (hchain h)
  · rintro ⟨steps, hfirst⟩
    obtain ⟨other, hother⟩ := hchain hfirst.chain
    obtain ⟨others, hothers⟩ := hfound hother
    rw [hother, hfirst.unique hothers]

/-- Two files that export all of each other, the first also all of a third, where `Card` is declared. -/
def circle : Library :=
  let first : SourceFile := ⟨⟨"/a.d.ts"⟩, { starExports := ["./b", "./c"] }⟩
  let second : SourceFile := ⟨⟨"/b.d.ts"⟩, { starExports := ["./a"] }⟩
  let third : SourceFile :=
    ⟨⟨"/c.d.ts"⟩, { exports := [⟨"Card", .here "Card"⟩], declarations := [⟨"Card", 0, none, .variable none⟩] }⟩
  Library.ofFiles ⟨"/"⟩ none [".d.ts"] [first, second, third]

/-- The first branch only leads back, so the second is the first to lead to the declaration. -/
theorem circle_firstChain :
    circle.FirstChain ⟨0, "Card"⟩ [(⟨0, "Card"⟩, 1), (⟨2, "Card"⟩, 0)] (.declaration ⟨2, 0⟩) := by
  have hfirst : circle.outcomes ⟨0, "Card"⟩ = [.goesOn ⟨1, "Card"⟩, .goesOn ⟨2, "Card"⟩] := by decide +kernel
  have hsecond : circle.outcomes ⟨1, "Card"⟩ = [.goesOn ⟨0, "Card"⟩] := by decide +kernel
  have hthird : circle.outcomes ⟨2, "Card"⟩ = [.found (.declaration ⟨2, 0⟩)] := by decide +kernel
  have hlast : (Outcome.goesOn ⟨2, "Card"⟩).Leads circle [⟨0, "Card"⟩] [(⟨2, "Card"⟩, 0)] (.declaration ⟨2, 0⟩) :=
    leads_iff.mpr ⟨by decide, 0, .found (.declaration ⟨2, 0⟩), [], rfl, by rw [hthird]; rfl, rfl, rfl⟩
  have hleads : (Outcome.goesOn ⟨0, "Card"⟩).Leads circle [] [(⟨0, "Card"⟩, 1), (⟨2, "Card"⟩, 0)]
      (.declaration ⟨2, 0⟩) :=
    leads_iff.mpr ⟨List.not_mem_nil, 1, .goesOn ⟨2, "Card"⟩, _, rfl, by rw [hfirst]; rfl, hlast⟩
  refine leadsFirst_iff.mp ⟨hleads, fun others other h => ?_⟩
  obtain ⟨-, i, o, rest, rfl, hi, h⟩ := leads_iff.mp h
  rw [hfirst] at hi
  rcases i with _ | _ | i
  · obtain rfl := Option.some.inj hi
    obtain ⟨-, j, o, rest, rfl, hj, h⟩ := leads_iff.mp h
    rw [hsecond] at hj
    rcases j with _ | j
    · -- the chain would be back at its first node
      obtain rfl := Option.some.inj hj
      exact absurd (List.mem_cons_of_mem _ List.mem_cons_self) (leads_iff.mp h).1
    · cases hj
  · obtain rfl := Option.some.inj hi
    obtain ⟨-, j, o, rest, rfl, hj, h⟩ := leads_iff.mp h
    rw [hthird] at hj
    rcases j with _ | j
    · obtain rfl := Option.some.inj hj
      obtain ⟨rfl, -⟩ := h
      exact List.le_refl _
    · cases hj
  · cases hi

/-- The search that comes back in vain from the second file finds the declaration in the third. -/
theorem card_behind_a_circle :
    circle.FirstChain ⟨0, "Card"⟩ [(⟨0, "Card"⟩, 1), (⟨2, "Card"⟩, 0)] (.declaration ⟨2, 0⟩) ∧
    circle.exported? 0 "Card" = some (.declaration ⟨2, 0⟩) :=
  ⟨circle_firstChain, ((exports_resolve circle).first 0 "Card" _).mpr ⟨_, circle_firstChain⟩⟩

end Library

end PatternCatalog
