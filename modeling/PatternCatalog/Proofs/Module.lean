/-
  PatternCatalog.Proofs.Module — a member of a file is determined by where it starts.

  A module has no members but those of the statements it gathers (`held_ofItems`), and those
  start at different places of the text. So the offset of a member, by which the catalog tells
  members of one file apart, never stands for two of them (`members_apart`).
-/

import PatternCatalog.Module
import PatternCatalog.Proofs.Script.Statements

namespace PatternCatalog

open Script

instance : HoldsMembers DeclarationKind where
  held
    | .interface parents members => held (parents, members)
    | .alias type => held type
    | .enum _ => []
    | .class parent => held parent
    | .function params returns => held (params, returns)
    | .variable type => held type

instance : HoldsMembers Declaration := ⟨fun d => held d.kind⟩

theorem held_filterMap {α β : Type} [HoldsMembers α] [HoldsMembers β] {f : α → Option β}
    (hf : ∀ a, held (f a) ⊆ held a) (as : List α) : held (as.filterMap f) ⊆ held as := by
  intro m hm
  obtain ⟨b, hb, hm⟩ := mem_held.mp hm
  obtain ⟨a, ha, hab⟩ := List.mem_filterMap.mp hb
  refine mem_held.mpr ⟨a, ha, hf a ?_⟩
  rwa [hab, held_some]

namespace DeclarationKind

theorem held_types (k : DeclarationKind) : held k.types ⊆ held k := by
  cases k with
  | interface parents members =>
    rw [types, held_append]
    have hmembers := held_filterMap (f := MemberOf.type) (fun m => List.subset_cons_self m _) members
    exact List.append_subset.mpr ⟨List.subset_append_left _ _, fun m hm => List.mem_append_right _ (hmembers hm)⟩
  | «alias» type => simp [types, held]
  | enum members => exact List.Subset.refl _
  | «class» parent => exact List.Subset.refl _
  | function params returns =>
    rw [types, held_append]
    have hparams := held_filterMap (f := ParamOf.type) (fun p => List.Subset.refl _) params
    exact List.append_subset.mpr ⟨fun m hm => List.mem_append_left _ (hparams hm), List.subset_append_right _ _⟩
  | «variable» type => exact List.Subset.refl _

end DeclarationKind

namespace Module

theorem held_of_kind {m : Module} {d : Declaration} (hd : d ∈ m.declarations) : held d.kind ⊆ held m.declarations :=
  fun _ hn => mem_held.mpr ⟨d, hd, hn⟩

theorem members_subset (m : Module) : m.members ⊆ held m.declarations := by
  intro n hn
  rcases List.mem_append.mp hn with hn | hn
  · obtain ⟨d, hd, hn⟩ := List.mem_flatMap.mp hn
    refine held_of_kind hd ?_
    unfold DeclarationKind.members at hn
    split at hn
    · next hkind =>
      rw [hkind]
      exact List.mem_append_right _ (mem_held.mpr ⟨n, hn, List.mem_cons_self⟩)
    · cases hn
  · obtain ⟨t, ht, hn⟩ := List.mem_flatMap.mp hn
    obtain ⟨d, hd, ht⟩ := List.mem_flatMap.mp ht
    obtain ⟨u, hu, ht⟩ := List.mem_flatMap.mp ht
    exact held_of_kind hd (d.kind.held_types (mem_held.mpr ⟨u, hu, List.mem_flatMap.mpr ⟨t, ht, hn⟩⟩))

/-! ## Statements -/

theorem held_declaredParams (s : Signature) : held (declaredParams s) = held s.params := by
  unfold declaredParams
  split
  · rw [held_append]
    exact List.append_nil _
  · rfl

/-- A declaration that goes by some name. -/
theorem held_named {name : Option String} {f : String → Declaration} {ms : List Member} (hf : ∀ n, held (f n) = ms) :
    held (name.map f).toList ⊆ ms := by
  cases name with
  | none => exact List.nil_subset _
  | some n => simp [hf]

theorem held_declarationsOf (doc : Option String) (unnamed : Option String) (d : DeclarationSyntax) :
    held (declarationsOf doc unnamed d) ⊆ held d := by
  cases d with
  | «variables» items =>
    refine held_filterMap (fun v => ?_) items
    cases v.name with
    | none => exact List.nil_subset _
    | some name => rw [Option.map_some, held_some]; exact List.Subset.refl _
  | function name start s => exact held_named fun n => congrArg (· ++ held s.returns) (held_declaredParams s)
  | «class» name start parent => exact held_named fun n => rfl
  | interface name start parents members => exact List.append_subset.mpr ⟨List.Subset.refl _, List.nil_subset _⟩
  | «alias» name start type => exact List.append_subset.mpr ⟨List.Subset.refl _, List.nil_subset _⟩
  | enum name start members => exact List.Subset.refl _
  | other => exact List.Subset.refl _

theorem addDependency_declarations (m : Module) (source : String) :
    (m.addDependency source).declarations = m.declarations := by
  unfold addDependency
  split <;> rfl

/-- A statement brings no members but its own. -/
theorem held_addStatement (m : Module) (doc : Option String) (s : Statement) :
    held (m.addStatement doc s).declarations ⊆ held m.declarations ++ held s := by
  have hkept : held m.declarations ⊆ held m.declarations ++ held s := List.subset_append_left _ _
  have hsource : ∀ source, held (m.addDependency source).declarations ⊆ held m.declarations ++ held s :=
    fun source => by rw [addDependency_declarations]; exact hkept
  have hdeclared : ∀ unnamed d, held d ⊆ held s →
      held (m.declarations ++ declarationsOf doc unnamed d) ⊆ held m.declarations ++ held s := by
    intro unnamed d hd
    rw [held_append]
    refine List.append_subset.mpr ⟨hkept, fun n hn => List.mem_append_right _ (hd ?_)⟩
    exact held_declarationsOf doc unnamed d hn
  cases s with
  | «import» source bindings => exact hsource source
  | exportList specifiers source =>
    cases source with
    | none => exact hkept
    | some source => exact hsource source
  | exportAll source name => cases name <;> exact hsource source
  | exportDeclaration d => exact hdeclared none d (List.Subset.refl _)
  | exportDefault d =>
    cases d with
    | declaration d => exact hdeclared (some "default") d (List.Subset.refl _)
    | name name => exact hkept
    | expression => exact hkept
  | exportAssignment name => exact hkept
  | declaration d => exact hdeclared none d (List.Subset.refl _)
  | other => exact hkept

theorem held_ofItems (docs : DocTable) (items : List Item) : held (ofItems docs items).declarations ⊆ held items := by
  have hrun : ∀ m : Module, held (items.foldl (addItem docs) m).declarations ⊆ held m.declarations ++ held items := by
    induction items with
    | nil => exact fun m => List.subset_append_left _ _
    | cons i items ih =>
      intro m
      refine List.Subset.trans (ih _) ?_
      rw [held_cons, ← List.append_assoc]
      exact List.append_subset.mpr ⟨fun n hn => List.mem_append_left _ (held_addStatement m _ i.statement hn),
        List.subset_append_right _ _⟩
  exact hrun _

/-- A member of a file is determined by where it starts. -/
theorem members_apart (text : String) :
    ∀ m ∈ (parse text).members, ∀ n ∈ (parse text).members, m.start = n.start → m = n := by
  intro m hm n hn
  have hm := members_subset _ hm
  have hn := members_subset _ hn
  unfold parse at hm hn
  cases hscript : Script.parse? dialect text with
  | none =>
    rw [hscript] at hm
    cases hm
  | some script =>
    rw [hscript] at hm hn
    exact parse?_apart hscript m (held_ofItems _ _ hm) n (held_ofItems _ _ hn)

end Module

end PatternCatalog
