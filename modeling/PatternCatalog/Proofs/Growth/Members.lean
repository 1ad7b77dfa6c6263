/-
  PatternCatalog.Proofs.Growth.Members — the members of a kept type, and which of them are slots.

  The apparent members of a type of the earlier version are found again, moved and in the same
  order, in the later one (`apparentMembers_place`), and each is the same slot or no slot
  (`detect?_place`).
-/

import PatternCatalog.Proofs.Growth.Placement
import PatternCatalog.Proofs.Labels.Members

namespace PatternCatalog

namespace Library

variable {P : Placement}

/-! ## Gathering -/

theorem keepsNames_place : KeepsNames P.memberRef := ⟨fun _ => rfl, fun _ _ => rfl⟩

theorem ownMembers_map (file : Nat) (ms : List Member) :
    ownMembers (P.file file) (ms.map (Member.moved (P.start file))) = (ownMembers file ms).map P.memberRef := by
  simp only [ownMembers, List.map_map]
  rfl

/-! ## Wrappers -/

theorem wrapped?_moved (g : Nat → Nat) (name : List String) (args : List TypeExpr) :
    wrapped? name (args.map (TypeExpr.moved g)) =
      (wrapped? name args).map fun (w, inner, names) => (w, inner.moved g, names) := by
  rw [TypeExpr.moved_eq, wrapped?_relabeled]

/-! ## Collection -/

namespace Grows

variable {l l' : Library} (h : Grows P l l')

include h

omit h in
/-- The members of some types one after another, by what holds of each. -/
theorem foldl_collect {collect collect' : Place → List MemberRef → List MemberRef} {file : Nat} {ts : List TypeExpr}
    (hts : ∀ t ∈ ts, ∀ out, collect' ⟨P.file file, t.moved (P.start file)⟩ (out.map P.memberRef) =
      (collect ⟨file, t⟩ out).map P.memberRef) (out : List MemberRef) :
    (ts.map (TypeExpr.moved (P.start file))).foldl (fun out t => collect' ⟨P.file file, t⟩ out) (out.map P.memberRef) =
      (ts.foldl (fun out t => collect ⟨file, t⟩ out) out).map P.memberRef := by
  rw [List.foldl_map]
  refine List.foldl_rel (r := fun (out' out : List MemberRef) => out' = out.map P.memberRef) rfl fun t ht out' out hout => ?_
  rw [hout, hts t ht]

theorem collectMembers_place (depth : Nat) {p : Place} (hp : l.Mentions p) (out : List MemberRef) :
    l'.collectMembers depth (P.place p) (out.map P.memberRef) = (l.collectMembers depth p out).map P.memberRef := by
  induction depth generalizing p out with
  | zero => rfl
  | succ depth ih =>
    obtain ⟨file, type⟩ := p
    cases type with
    | object members =>
      simp only [collectMembers, Placement.place, TypeExpr.moved, TypeExpr.movedMembers_eq, ownMembers_map,
        addMembers_map keepsNames_place]
    | intersection parts =>
      simp only [collectMembers, Placement.place, TypeExpr.moved, TypeExpr.movedAll_eq]
      refine foldl_collect (fun t ht out => ih (hp.subterm ?_) out) out
      exact List.mem_cons_of_mem _ (TypeExpr.mem_subtermsOf ht)
    | reference module name args =>
      have hplace : ∀ key t, l.Mentions ⟨key, t⟩ → ∀ out,
          l'.collectMembers depth ⟨P.file key, t.moved (P.start key)⟩ (out.map P.memberRef) =
            (l.collectMembers depth ⟨key, t⟩ out).map P.memberRef := fun key t ht out => ih ht out
      have hwrapped :
          (wrapped? name (args.map (TypeExpr.moved (P.start file)))).elim (out.map P.memberRef) (fun found =>
            addMembers (out.map P.memberRef)
              (found.1.apply found.2.2 (l'.collectMembers depth ⟨P.file file, found.2.1⟩ []))) =
          ((wrapped? name args).elim out fun found =>
            addMembers out (found.1.apply found.2.2 (l.collectMembers depth ⟨file, found.2.1⟩ []))).map P.memberRef := by
        rw [wrapped?_moved]
        cases hw : wrapped? name args with
        | none => rfl
        | some found =>
          obtain ⟨w, inner, names⟩ := found
          have hinner : l.Mentions ⟨file, inner⟩ :=
            hp.subterm (List.mem_cons_of_mem _ (TypeExpr.mem_subtermsOf (mem_of_wrapped? hw)))
          dsimp only [Option.map_some, Option.elim_some]
          rw [← addMembers_map keepsNames_place, ← apply_map keepsNames_place, ← hplace file inner hinner []]
          rfl
      have href := h.references _ hp
      simp only [Placement.place, TypeExpr.moved, TypeExpr.movedAll_eq] at href
      have hunresolved (hnone : ∀ key, l.reference? file (.reference module name args) ≠ some (.declaration key)) :
          l'.collectMembers (depth + 1) (P.place ⟨file, .reference module name args⟩) (out.map P.memberRef) =
            (l.collectMembers (depth + 1) ⟨file, .reference module name args⟩ out).map P.memberRef := by
        rw [collectMembers_wrapped hnone, Placement.place, TypeExpr.moved, TypeExpr.movedAll_eq,
          collectMembers_wrapped, hwrapped]
        intro key
        rw [href]
        rcases hsymbol : l.reference? file (.reference module name args) with _ | key | other | ⟨source, path⟩
        · simp
        · exact absurd hsymbol (hnone key)
        · simp [Placement.symbol]
        · simp [Placement.symbol]
      rcases hsymbol : l.reference? file (.reference module name args) with _ | key | other | ⟨source, path⟩
      · exact hunresolved (by simp [hsymbol])
      · rw [hsymbol] at href
        simp only [collectMembers, Placement.place, TypeExpr.moved, TypeExpr.movedAll_eq, href, hsymbol]
        obtain ⟨k, hk, hk'⟩ := h.reference?_kind hsymbol
        simp only [Option.map_some, Placement.symbol, hk, hk']
        rcases k with ⟨parents, members⟩ | type | _ | _ | _ | _
        · have hparents : ∀ t ∈ parents, l.Mentions ⟨key.file, t⟩ :=
            fun t ht => mentions_of_kind hk (List.mem_append_left _ ht)
          simp only [DeclarationKind.moved, Placement.key, ownMembers_map, addMembers_map keepsNames_place]
          exact foldl_collect (fun t ht => hplace key.file t (hparents t ht)) _
        · exact hplace key.file type (mentions_of_kind hk List.mem_cons_self) out
        all_goals rfl
      · exact hunresolved (by simp [hsymbol])
      · exact hunresolved (by simp [hsymbol])
    | _ => rfl

theorem apparentMembers_place {p : Place} (hp : l.Mentions p) :
    l'.apparentMembers (P.place p) = (l.apparentMembers p).map P.memberRef :=
  h.collectMembers_place (typeDepth + 1) hp []

end Grows

end Library

/-! ## Slots -/

namespace Slot

open Library (MemberRef Place)

variable {P : Placement} {l l' : Library} {onAlias onAlias' : Place → Option SlotQuantity}

theorem isDeclaration_map (symbol : Option Symbol) : isDeclaration (symbol.map P.symbol) = isDeclaration symbol := by
  rcases symbol with _ | _ | _ | _ <;> rfl

theorem symbolQuantity_map (o : Options) (q : Option SlotQuantity) (symbol : Option Symbol) :
    symbolQuantity o q (symbol.map P.symbol) = symbolQuantity o q symbol := by
  rcases symbol with _ | _ | _ | _ <;> rfl

mutual

theorem quantityOf_moved (h : l.Grows P l') (o : Options)
    (hon : ∀ p, l.Mentions p → onAlias' (P.place p) = onAlias p) (file : Nat) :
    (t : TypeExpr) → l.Mentions ⟨file, t⟩ →
      quantityOf l' o onAlias' (P.file file) (t.moved (P.start file)) = quantityOf l o onAlias file t
  | .array item, ht => by
    have hitem := ht.subterm (List.mem_cons_of_mem _ item.self_mem_subterms)
    rw [TypeExpr.moved, quantityOf, quantityOf, quantityOf_moved h o hon file item hitem]
  | .union parts, ht => by
    rw [TypeExpr.moved, quantityOf, quantityOf]
    exact quantityOfAny_moved h o hon file parts fun t hpart =>
      ht.subterm (List.mem_cons_of_mem _ (TypeExpr.mem_subtermsOf hpart))
  | .reference module name args, ht => by
    have hargs := quantityOfAny_moved h o hon file args fun t harg =>
      ht.subterm (List.mem_cons_of_mem _ (TypeExpr.mem_subtermsOf harg))
    have href := h.references _ ht
    have halias := hon _ ht
    have hlength : (TypeExpr.movedAll (P.start file) args).length = args.length := by simp
    simp only [Placement.place, TypeExpr.moved] at href halias ⊢
    rw [quantityOf, quantityOf, href, halias, isDeclaration_map, symbolQuantity_map, hargs, hlength]
  | .keyword _, _ | .literal _, _ | .intersection _, _ | .function _ _, _ | .object _, _ | .other, _ => by
    simp only [TypeExpr.moved, quantityOf]

theorem quantityOfAny_moved (h : l.Grows P l') (o : Options)
    (hon : ∀ p, l.Mentions p → onAlias' (P.place p) = onAlias p) (file : Nat) :
    (ts : List TypeExpr) → (∀ t ∈ ts, l.Mentions ⟨file, t⟩) →
      quantityOfAny l' o onAlias' (P.file file) (TypeExpr.movedAll (P.start file) ts) = quantityOfAny l o onAlias file ts
  | [], _ => rfl
  | t :: ts, hts => by
    rw [TypeExpr.movedAll, quantityOfAny, quantityOfAny, TypeExpr.isNullish_moved,
      quantityOf_moved h o hon file t (hts t List.mem_cons_self),
      quantityOfAny_moved h o hon file ts fun u hu => hts u (List.mem_cons_of_mem _ hu)]

end

theorem quantityWithin_place (h : l.Grows P l') (o : Options) (n : Nat) {p : Place} (hp : l.Mentions p) :
    quantityWithin l' o n (P.place p) = quantityWithin l o n p := by
  induction n generalizing p with
  | zero =>
    rw [quantityWithin, quantityWithin]
    exact quantityOf_moved h o (fun _ _ => rfl) p.file p.type hp
  | succ n ih =>
    rw [quantityWithin, quantityWithin]
    refine quantityOf_moved h o (fun q hq => ?_) p.file p.type hp
    rw [h.aliasTarget?_place hq]
    cases htarget : l.aliasTarget? q with
    | none => rw [Option.map_none, Option.bind_none, Option.bind_none]
    | some body =>
      rw [Option.map_some, Option.bind_some, Option.bind_some]
      exact ih (Library.mentions_of_aliasTarget? htarget)

theorem markedQuantity_moved (g : Nat → Nat) (q : Option SlotQuantity) (type : Option TypeExpr) :
    markedQuantity q (type.map (TypeExpr.moved g)) = markedQuantity q type := by
  rw [TypeExpr.moved_eq, markedQuantity_relabeled]

theorem isUnconstrained_moved (g : Nat → Nat) (type : Option TypeExpr) :
    isUnconstrained (type.map (TypeExpr.moved g)) = isUnconstrained type := by
  rw [TypeExpr.moved_eq, isUnconstrained_relabeled]

/-- A kept member is the same slot as before, or no slot as before. -/
theorem detect?_place (h : l.Grows P l') (o : Options) {m : MemberRef} (hm : l.Declares m) (doc : Doc.Comment) :
    detect? l' o (P.memberRef m) doc = detect? l o m doc := by
  have htype : (P.memberRef m).member.type = m.member.type.map (TypeExpr.moved (P.start m.file)) := rfl
  have hbyType : ((P.memberRef m).member.type.bind fun type => quantityWithin l' o aliasDepth ⟨P.file m.file, type⟩) =
      m.member.type.bind fun type => quantityWithin l o aliasDepth ⟨m.file, type⟩ := by
    rw [htype]
    cases hmember : m.member.type with
    | none => rw [Option.map_none, Option.bind_none, Option.bind_none]
    | some type =>
      rw [Option.map_some, Option.bind_some, Option.bind_some]
      exact quantityWithin_place h o aliasDepth (hm.mentions hmember)
  have hfile : (P.memberRef m).file = P.file m.file := rfl
  dsimp only [detect?]
  rw [hfile, hbyType, htype, markedQuantity_moved, isUnconstrained_moved, Placement.memberRef_name]

end Slot

end PatternCatalog
