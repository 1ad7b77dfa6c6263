/-
  PatternCatalog.Proofs.Script.Statements — members of a script start at different places.

  What holds of the rules of types goes on through declarations, statements and the items of a
  script. The goals of the grammar are tied together by their depth, so the members of every
  goal's answer are spread over what is read for it (`run_spread`), and those of a script over
  its text (`parse?_apart`).
-/

import PatternCatalog.Proofs.Script.Types

namespace PatternCatalog.Script

open Parse

/-! ## Members in statements -/

instance : HoldsMembers Signature := ⟨fun s => held (s.params, s.returns)⟩

instance : HoldsMembers Variable := ⟨fun v => held v.type⟩

instance : HoldsMembers DeclarationSyntax where
  held
    | .variables items => held items
    | .function _ _ s => held s
    | .class _ _ parent => held parent
    | .interface _ _ parents members => held (parents, members)
    | .alias _ _ type => held type
    | .enum .. | .other => []

instance : HoldsMembers DefaultExport where
  held
    | .declaration d => held d
    | _ => []

instance : HoldsMembers Statement where
  held
    | .exportDeclaration d | .declaration d => held d
    | .exportDefault d => held d
    | _ => []

instance : HoldsMembers Item := ⟨fun i => held i.statement⟩

variable {g : Rules} (hg : g.Spread) (seen : List Member)

/-! ## Functions and classes -/

include hg

theorem functionRest_spread (body : Parse Unit) : Spreads seen (functionRest g body) := by
  refine .step fun _ => .bind (parameters_spread hg seen) fun (params, rest) => ?_
  refine .bind (resultAnnotation?_spread hg _) fun returns => .step fun _ => .pure ?_
  rw [held_pair, held_bool, List.append_nil, List.append_assoc]
  exact List.subset_append_right _ _

theorem namedParent_spread : Spreads seen (namedParent g) := by
  refine .step fun first => .step fun names => .step fun _ => .step fun _ => .step fun _ => ?_
  split
  · refine .bind (typeArguments_spread hg seen) fun args => .step fun _ => .step fun _ => .step fun _ => .pure ?_
    rw [held_reference]
    exact List.subset_append_right _ _
  · refine .bind (.pure (f := held) (List.nil_subset _)) fun args => .step fun _ => .step fun _ => .step fun _ => .pure ?_
    rw [held_reference]
    exact List.subset_append_right _ _

theorem parentClass?_spread : Spreads seen (parentClass? g) := by
  refine .step fun _ => ?_
  split
  · exact .pure (List.nil_subset _)
  · refine .bind (.attempt (namedParent_spread hg)) fun parent => ?_
    split
    · exact .pure (List.subset_append_right _ _)
    · exact .step fun _ => .step fun _ => .pure (List.nil_subset _)

theorem classRest_spread : Spreads seen (classRest g) := by
  refine .step fun _ => .step fun name => .step fun _ => .bind (parentClass?_spread hg seen) fun parent => ?_
  refine .step fun _ => .step fun _ => .step fun _ => .pure ?_
  cases name <;> exact List.subset_append_right _ _

/-! ## Declarations -/

theorem declarator_spread (allowIn : Bool) : Spreads seen (declarator g allowIn) := by
  refine .step fun _ => .step fun _ => .step fun _ => .step fun _ => .step fun _ => ?_
  refine .maybe (.bind (annotation?_spread hg seen) fun type => .step fun _ => ?_)
  exact .maybe (.pure (List.subset_append_right _ _))

theorem declarators_spread (allowIn : Bool) : Spreads seen (declarators g allowIn) := by
  refine .bind (declarator_spread hg seen allowIn) fun first => .step fun _ => ?_
  refine .bind (.many (fun seen => .step fun _ => ?_) _) fun others => .pure ?_
  · split
    · exact .bind (declarator_spread hg seen allowIn) fun v => .pure (by simp)
    · exact .pure (List.nil_subset _)
  · rw [held_cons, List.append_assoc]
    exact List.subset_append_right _ _

theorem functionDeclaration_spread (start : Nat) : Spreads seen (functionDeclaration g start) := by
  refine .step fun _ => .step fun _ => .step fun _ => .step fun _ => ?_
  split
  · exact .step fun _ => .step fun _ => .bind (functionRest_spread hg seen _) fun s => .pure (List.subset_append_right _ _)
  · exact .step fun _ => .bind (functionRest_spread hg seen _) fun s => .pure (List.subset_append_right _ _)

theorem classDeclaration_spread (start : Nat) : Spreads seen (classDeclaration g start) := by
  refine .step fun _ => .step fun _ => .bind (classRest_spread hg seen) fun (name, parent) => .pure ?_
  cases name <;> exact List.subset_append_right _ _

theorem aliasType_spread : Spreads seen (aliasType g) := by
  refine .step fun _ => .step fun _ => ?_
  split
  · exact .step fun _ => .pure (List.nil_subset _)
  · exact hg.type true seen

theorem aliasDeclaration_spread (start : Nat) : Spreads seen (aliasDeclaration g start) := by
  refine .step fun _ => .step fun name => .step fun _ => .step fun _ => .bind (aliasType_spread hg seen) fun type => ?_
  exact .step fun _ => .pure (List.subset_append_right _ _)

theorem parentInterface_spread : Spreads seen (parentInterface g) := by
  refine .step fun first => .step fun names => .bind (typeArgumentsHere_spread hg seen) fun args => .pure ?_
  rw [held_reference]
  exact List.subset_append_right _ _

theorem parentInterfaces_spread : Spreads seen (parentInterfaces g) := by
  refine .step fun _ => ?_
  split
  · refine .bind (parentInterface_spread hg seen) fun first => .step fun _ => ?_
    refine .bind (.many (fun seen => .step fun _ => ?_) _) fun others => .pure ?_
    · split
      · exact .bind (parentInterface_spread hg seen) fun t => .pure (by simp)
      · exact .pure (List.nil_subset _)
    · rw [held_cons, List.append_assoc]
      exact List.subset_append_right _ _
  · exact .pure (List.nil_subset _)

theorem interfaceDeclaration_spread (start : Nat) : Spreads seen (interfaceDeclaration g start) := by
  refine .step fun _ => .step fun name => .step fun _ => .bind (parentInterfaces_spread hg seen) fun parents => ?_
  refine .step fun _ => .bind (typeMembers_spread hg _) fun members => .pure ?_
  rw [List.append_assoc]
  exact List.subset_append_right _ _

omit hg in
theorem enumDeclaration_spread (start : Nat) : Spreads seen (enumDeclaration g start) :=
  .step fun _ => .step fun _ => .step fun _ => .step fun _ => .step fun _ => .pure (List.nil_subset _)

omit hg in
theorem namespaceDeclaration_spread : Spreads seen (namespaceDeclaration g) := by
  refine .step fun _ => ?_
  split
  · refine .step fun _ => .step fun _ => ?_
    split
    · exact .step fun _ => .pure (List.nil_subset _)
    · exact .step fun _ => .pure (List.nil_subset _)
  · exact .step fun _ => .step fun _ => .step fun _ => .pure (List.nil_subset _)

theorem declaration_spread : Spreads seen (declaration g) := by
  refine .step fun start => .step fun _ => .step fun _ => ?_
  split
  · exact classDeclaration_spread hg seen start
  · refine .ite (functionDeclaration_spread hg seen start) <| .ite (classDeclaration_spread hg seen start) ?_
    refine .ite (aliasDeclaration_spread hg seen start) <| .ite (interfaceDeclaration_spread hg seen start) ?_
    refine .step fun _ => .ite (enumDeclaration_spread seen start) ?_
    refine .ite (.step fun _ => namespaceDeclaration_spread seen) <| .ite (namespaceDeclaration_spread seen) ?_
    refine .step fun _ => .bind (declarators_spread hg seen true) fun items => .step fun _ => ?_
    exact .pure (List.subset_append_right _ _)
  · exact .fail

/-! ## Statements -/

theorem defaultExport_spread : Spreads seen (defaultExport g) := by
  refine .step fun r => .ite ?_ ?_
  · exact .bind (declaration_spread hg seen) fun d => .pure (List.subset_append_right _ _)
  · refine .step fun _ => ?_
    split
    · exact .pure (List.nil_subset _)
    · exact .pure (List.nil_subset _)

omit hg in
theorem importFrom_spread (bindings : List (String × Imported)) : Spreads seen (importFrom bindings) :=
  .step fun _ => .step fun _ => .step fun _ => .pure (List.nil_subset _)

omit hg in
theorem importRest_spread : Spreads seen importRest := by
  refine .step fun _ => ?_
  split
  · exact .step fun _ => .step fun _ => .pure (List.nil_subset _)
  · refine .step fun _ => .step fun _ => .ite ?_ ?_
    · refine .step fun name => .step fun _ => .step fun _ => .ite ?_ ?_
      · exact .step fun _ => .step fun _ => .pure (List.nil_subset _)
      · refine .step fun _ => .ite ?_ (importFrom_spread seen _)
        exact .step fun bindings => importFrom_spread seen _
    · exact .step fun bindings => importFrom_spread seen bindings

omit hg in
theorem exportAll_spread : Spreads seen exportAll := by
  refine .step fun _ => .step fun _ => .ite ?_ ?_
  · exact .step fun _ => .step fun _ => .step fun _ => .step fun _ => .step fun _ => .pure (List.nil_subset _)
  · exact .step fun _ => .step fun _ => .step fun _ => .step fun _ => .pure (List.nil_subset _)

omit hg in
theorem exportList_spread : Spreads seen exportList := by
  refine .step fun _ => .step fun specifiers => .step fun _ => .ite ?_ ?_
  · exact .step fun _ => .step fun _ => .step fun _ => .pure (List.nil_subset _)
  · exact .step fun _ => .step fun _ => .pure (List.nil_subset _)

omit hg in
theorem exportNames_spread : Spreads seen exportNames :=
  .step fun _ => .ite (exportAll_spread seen) (exportList_spread seen)

theorem exportStatement_spread : Spreads seen (exportStatement g) := by
  have hdeclaration : Spreads seen do return Statement.exportDeclaration (← declaration g) :=
    .bind (declaration_spread hg seen) fun d => .pure (List.subset_append_right _ _)
  refine .step fun _ => .step fun _ => ?_
  split
  · exact .step fun _ => .step fun _ => .pure (List.nil_subset _)
  · refine .step fun _ => .ite ?_ <| .ite ?_ <| .ite ?_ <| .ite (.step fun _ => exportNames_spread seen) hdeclaration
    · exact .step fun _ => .bind (defaultExport_spread hg seen) fun d => .pure (List.subset_append_right _ _)
    · exact .step fun _ => .step fun _ => .step fun _ => .step fun _ => .pure (List.nil_subset _)
    · exact .step fun _ => .step fun _ => .pure (List.nil_subset _)
  · exact hdeclaration
  · exact exportNames_spread seen

theorem wordStatement_spread (w : String) : Spreads seen (wordStatement g w) := by
  refine .step fun _ => .ite (exportStatement_spread hg seen) <| .ite (.step fun _ => importRest_spread seen) ?_
  split
  · exact .step fun _ => .pure (List.nil_subset _)
  · exact .step fun _ => .pure (List.nil_subset _)

theorem statementRule_spread : Spreads seen (statementRule g) := by
  have hdeclaration : Spreads seen do return Statement.declaration (← declaration g) :=
    .bind (declaration_spread hg seen) fun d => .pure (List.subset_append_right _ _)
  refine .step fun r => .ite ?_ <| .ite hdeclaration <| .ite ?_ ?_
  · exact .orElse (.step fun _ => exportStatement_spread hg seen) hdeclaration
  · exact .step fun _ => .step fun _ => .step fun _ => .pure (List.nil_subset _)
  · split
    · exact wordStatement_spread hg seen _
    · exact .step fun _ => .pure (List.nil_subset _)
    · exact .step fun _ => .pure (List.nil_subset _)
    · exact .step fun _ => .pure (List.nil_subset _)

/-! ## Scripts -/

omit hg

theorem run_spread (depth : Nat) : (run depth).Spread ∧ ∀ seen, Spreads seen (run depth .statement : Parse Statement) := by
  induction depth with
  | zero => exact ⟨⟨fun _ _ => .fail, fun _ _ => .fail⟩, fun _ => .fail⟩
  | succ depth ih =>
    refine ⟨⟨fun conditional seen => ?_, fun conditional seen => ?_⟩, fun seen => ?_⟩
    · exact typeRule_spread ih.1 seen conditional
    · exact operatorTypeRule_spread ih.1 seen conditional
    · exact statementRule_spread ih.1 seen

theorem itemList_spread (depth : Nat) : Spreads seen (itemList (run depth)) := by
  refine .step fun _ => .bind (.many (fun seen => ?_) _) fun items => .step fun _ => .step fun _ => .pure ?_
  · refine .step fun _ => ?_
    split
    · exact .pure (List.nil_subset _)
    · refine .step fun _ => .step fun _ => .bind ((run_spread depth).2 seen) fun statement => .step fun _ => .pure ?_
      rw [held_some]
      exact List.subset_append_right _ _
  · exact List.subset_append_right _ _

/-- A loop gives no more answers than it has rounds. -/
theorem many_length {α : Type} {p : Parse (Option α)} {fuel : Nat} {r r' : Reader} {as : List α}
    (h : (many fuel p).Gives r as r') : as.length ≤ fuel := by
  induction fuel generalizing r r' as with
  | zero => rw [(gives_pure h).1]; exact Nat.le_refl 0
  | succ fuel ih =>
    obtain ⟨a, r₁, -, h⟩ := gives_bind h
    cases a with
    | none => rw [(gives_pure h).1]; exact Nat.zero_le _
    | some a =>
      obtain ⟨as, r₂, has, h⟩ := gives_bind h
      rw [(gives_pure h).1]
      exact Nat.succ_le_succ (ih has)

/-- A script has no more statements than its text has octets, but for one. -/
theorem parse?_length {dialect : Dialect} {s : String} {script : Script} (h : Script.parse? dialect s = some script) :
    script.items.length ≤ Text.octets s.toList + 1 := by
  obtain ⟨⟨items, r⟩, hitems, rfl⟩ := Option.map_eq_some_iff.mp h
  obtain ⟨n, r₁, hn, h⟩ := gives_bind ⟨r.2, hitems⟩
  obtain ⟨items', r₂, hmany, h⟩ := gives_bind h
  obtain ⟨t, r₃, -, h⟩ := gives_bind h
  obtain ⟨u, r₄, -, h⟩ := gives_bind h
  rw [(gives_ask hn).1] at hmany
  rw [(gives_pure h).1]
  exact many_length hmany

/-- No two members of a script start at one place. -/
theorem parse?_apart {dialect : Dialect} {s : String} {script : Script} (h : Script.parse? dialect s = some script) :
    ∀ m ∈ held script.items, ∀ n ∈ held script.items, m.start = n.start → m = n := by
  obtain ⟨⟨items, r⟩, hitems, rfl⟩ := Option.map_eq_some_iff.mp h
  exact ((itemList_spread [] _).self ⟨r.2, hitems⟩).apart

end PatternCatalog.Script
