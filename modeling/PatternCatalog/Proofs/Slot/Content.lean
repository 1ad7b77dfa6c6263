/-
  PatternCatalog.Proofs.Slot.Content — the literals in default content.

  An attribute keeps a number only if it is finite (`literalExpression?_isFinite`): text such as
  `1e999` is no literal. So every literal of an example that is read is finite
  (`parse_isFinite`), and so is every literal of the content that a slot gets
  (`content?_isFinite`).
-/

import PatternCatalog.Proofs.Analysis.Encode
import PatternCatalog.Proofs.Run
import PatternCatalog.Proofs.Slot.Mirror

namespace PatternCatalog

namespace Markup

/-- An attribute whose value, if it is a literal, is finite. -/
def Attribute.isFinite (a : Attribute) : Bool := a.value.all (·.isFinite)

mutual

/-- Whether the literal values in a node are finite. -/
def Node.isFinite : Node → Bool
  | ⟨_, attributes, children⟩ => attributes.all (·.isFinite) && Node.allFinite children

def Node.allFinite : List Node → Bool
  | [] => true
  | n :: ns => n.isFinite && Node.allFinite ns

end

/-! ## Attributes -/

theorem stringExpression?_isFinite {s : List Char} {v : LiteralValue} (h : stringExpression? s = some v) :
    v.isFinite = true := by
  unfold stringExpression? at h
  split at h
  · cases h
  split at h
  · split at h
    · split at h
      · cases h
      · obtain rfl := Option.some.inj h
        rfl
    · cases h
  · cases h

/-- A number that is not finite is no literal. -/
theorem literalExpression?_isFinite {s : List Char} {v : LiteralValue} (h : literalExpression? s = some v) :
    v.isFinite = true := by
  unfold literalExpression? at h
  split at h
  · obtain rfl := Option.some.inj h
    rfl
  split at h
  · obtain rfl := Option.some.inj h
    rfl
  split at h
  · -- a number that overflows is read on as a text, which it is not either
    split at h
    · next x _ hfinite =>
      obtain rfl := Option.some.inj h
      exact hfinite
    · exact stringExpression?_isFinite h
  · exact stringExpression?_isFinite h

theorem attributeValue_isFinite {s left : List Char} {value : Option LiteralValue}
    (h : attributeValue s = .ok (value, left)) : value.all (·.isFinite) = true := by
  unfold attributeValue at h
  dsimp only at h
  split at h
  · split at h
    · split at h
      · obtain ⟨rfl, -⟩ := Prod.mk.inj (Except.ok.inj h)
        rfl
      · cases h
    split at h
    · obtain ⟨⟨inner, rest⟩, -, h⟩ := Except.bind_ok h
      obtain ⟨rfl, -⟩ := Prod.mk.inj (Except.ok.inj h)
      exact Option.all_eq_true _ _ |>.mpr fun v hv => literalExpression?_isFinite hv
    · cases h
  · cases h

theorem attributes_isFinite {fuel : Nat} {s left : List Char} {as : List Attribute}
    (h : attributes fuel s = .ok (as, left)) : as.all (·.isFinite) = true := by
  induction fuel generalizing s left as with
  | zero => cases h
  | succ fuel ih =>
    rw [attributes] at h
    split at h
    · obtain ⟨rfl, -⟩ := Prod.mk.inj (Except.ok.inj h)
      rfl
    split at h
    · obtain ⟨rfl, -⟩ := Prod.mk.inj (Except.ok.inj h)
      rfl
    split at h
    · obtain ⟨⟨_, rest⟩, -, h⟩ := Except.bind_ok h
      exact ih h
    · obtain ⟨⟨name, rest⟩, -, h⟩ := Except.bind_ok h
      dsimp only at h
      split at h
      · obtain ⟨⟨value, afterValue⟩, hvalue, h⟩ := Except.bind_ok h
        obtain ⟨⟨others, afterOthers⟩, hothers, h⟩ := Except.bind_ok h
        obtain ⟨rfl, -⟩ := Prod.mk.inj (Except.ok.inj h)
        rw [List.all_cons, ih hothers, Bool.and_true]
        exact attributeValue_isFinite hvalue
      · obtain ⟨⟨others, afterOthers⟩, hothers, h⟩ := Except.bind_ok h
        obtain ⟨rfl, -⟩ := Prod.mk.inj (Except.ok.inj h)
        rw [List.all_cons, ih hothers]
        rfl

/-! ## Elements -/

/-- The elements that are read with some fuel hold finite literals only. -/
structure ReadsFinite (limit fuel : Nat) : Prop where
  element : ∀ {depth s node left}, element limit fuel depth s = .ok (node, left) → node.isFinite = true
  children : ∀ {depth tag s nodes left}, children limit fuel depth tag s = .ok (nodes, left) → Node.allFinite nodes = true

theorem ReadsFinite.element_step {limit fuel : Nat} (ih : ReadsFinite limit fuel) {depth : Nat} {s left : List Char}
    {node : Node} (h : Markup.element limit (fuel + 1) depth s = .ok (node, left)) : node.isFinite = true := by
  rw [Markup.element] at h
  split at h
  · cases h
  obtain ⟨⟨_, afterMark⟩, -, h⟩ := Except.bind_ok h
  obtain ⟨⟨tag, afterTag⟩, -, h⟩ := Except.bind_ok h
  obtain ⟨⟨attributes, afterAttributes⟩, hattributes, h⟩ := Except.bind_ok h
  have hfinite := attributes_isFinite hattributes
  dsimp only at h
  split at h
  · obtain ⟨rfl, -⟩ := Prod.mk.inj (Except.ok.inj h)
    rw [Node.isFinite, hfinite]
    rfl
  · obtain ⟨⟨_, afterClose⟩, -, h⟩ := Except.bind_ok h
    obtain ⟨⟨children, afterChildren⟩, hchildren, h⟩ := Except.bind_ok h
    obtain ⟨rfl, -⟩ := Prod.mk.inj (Except.ok.inj h)
    rw [Node.isFinite, hfinite, ih.children hchildren]
    rfl

theorem ReadsFinite.children_step {limit fuel : Nat} (ih : ReadsFinite limit fuel) {depth : Nat} {tag : List String}
    {s left : List Char} {nodes : List Node} (h : Markup.children limit (fuel + 1) depth tag s = .ok (nodes, left)) :
    Node.allFinite nodes = true := by
  rw [Markup.children] at h
  split at h
  · cases h
  split at h
  · obtain ⟨⟨_, rest⟩, -, h⟩ := Except.bind_ok h
    exact ih.children h
  split at h
  · obtain ⟨⟨closed, afterTag⟩, -, h⟩ := Except.bind_ok h
    obtain ⟨⟨_, afterClose⟩, -, h⟩ := Except.bind_ok h
    dsimp only at h
    split at h
    · obtain ⟨rfl, -⟩ := Prod.mk.inj (Except.ok.inj h)
      rfl
    · cases h
  · obtain ⟨⟨child, afterChild⟩, hchild, h⟩ := Except.bind_ok h
    obtain ⟨⟨others, afterOthers⟩, hothers, h⟩ := Except.bind_ok h
    obtain ⟨rfl, -⟩ := Prod.mk.inj (Except.ok.inj h)
    rw [Node.allFinite, ih.element hchild, ih.children hothers]
    rfl

theorem readsFinite (limit fuel : Nat) : ReadsFinite limit fuel := by
  -- an element and its children are read with one unit of fuel less than what they stand in
  induction fuel with
  | zero => exact ⟨(fun h => nomatch h), (fun h => nomatch h)⟩
  | succ fuel ih => exact ⟨ih.element_step, ih.children_step⟩

/-! ## Modules -/

theorem elementExpression_isFinite {limit fuel : Nat} {s left : List Char} {node : Node}
    (h : elementExpression limit fuel s = .ok (node, left)) : node.isFinite = true := by
  induction fuel generalizing s left node with
  | zero => cases h
  | succ fuel ih =>
    rw [elementExpression] at h
    dsimp only at h
    split at h
    · obtain ⟨⟨inner, afterInner⟩, hinner, h⟩ := Except.bind_ok h
      obtain ⟨⟨_, afterClose⟩, -, h⟩ := Except.bind_ok h
      obtain ⟨rfl, -⟩ := Prod.mk.inj (Except.ok.inj h)
      exact ih hinner
    · exact (readsFinite limit _).element h

theorem block_isFinite {limit : Nat} {s left : List Char} {node : Node} (h : block limit s = .ok (node, left)) :
    node.isFinite = true := by
  obtain ⟨⟨_, afterReturn⟩, -, h⟩ := Except.bind_ok h
  obtain ⟨⟨inner, afterInner⟩, hinner, h⟩ := Except.bind_ok h
  obtain ⟨⟨_, afterClose⟩, -, h⟩ := Except.bind_ok h
  obtain ⟨rfl, -⟩ := Prod.mk.inj (Except.ok.inj h)
  exact elementExpression_isFinite hinner

theorem componentFunction_isFinite {limit : Nat} {s left : List Char} {node : Node}
    (h : componentFunction limit s = .ok (node, left)) : node.isFinite = true := by
  unfold componentFunction at h
  split at h
  · obtain ⟨⟨_, afterArguments⟩, -, h⟩ := Except.bind_ok h
    obtain ⟨⟨_, afterOpen⟩, -, h⟩ := Except.bind_ok h
    exact block_isFinite h
  · obtain ⟨⟨_, afterArguments⟩, -, h⟩ := Except.bind_ok h
    obtain ⟨⟨_, afterArrow⟩, -, h⟩ := Except.bind_ok h
    dsimp only at h
    split at h
    · exact block_isFinite h
    · exact elementExpression_isFinite h

/-- The literals of an example that is read are finite. -/
theorem parse_isFinite {source : String} {limit : Nat} {m : Module} (h : parse source limit = .ok m) :
    m.root.isFinite = true := by
  obtain ⟨⟨imports, afterImports⟩, -, h⟩ := Except.bind_ok (Except.mapError_ok h)
  obtain ⟨⟨_, afterExport⟩, -, h⟩ := Except.bind_ok h
  obtain ⟨⟨_, afterDefault⟩, -, h⟩ := Except.bind_ok h
  obtain ⟨⟨root, afterRoot⟩, hroot, h⟩ := Except.bind_ok h
  dsimp only at h
  split at h
  · obtain rfl := Except.ok.inj h
    exact componentFunction_isFinite hroot
  · cases h

end Markup

/-! ## Content -/

namespace ContentSetting

theorem props_isFinite (identity : PatternIdentity) {attributes : List Markup.Attribute}
    (h : attributes.all (·.isFinite) = true) : (props identity attributes).all (·.value.isFinite) = true := by
  rw [List.all_eq_true] at h ⊢
  intro p hp
  obtain ⟨a, ha, hp⟩ := List.mem_filterMap.mp hp
  obtain ⟨v, hv, rfl⟩ := Option.map_eq_some_iff.mp hp
  have hattribute := h a ha
  rw [Markup.Attribute.isFinite, hv] at hattribute
  exact hattribute

mutual

/-- Finite literals in a node make finite literals in its element. -/
theorem element?_isFinite (c : ContentSetting) {parent id : String} : (n : Markup.Node) → n.isFinite = true →
    ∀ {e}, c.element? parent id n = some e → e.isFinite = true
  | ⟨tag, attributes, children⟩, hn, e, h => by
    rw [Markup.Node.isFinite, Bool.and_eq_true] at hn
    rw [element?] at h
    obtain ⟨identity, -, h⟩ := Option.bind_eq_some_iff.mp h
    obtain ⟨es, hes, h⟩ := Option.bind_eq_some_iff.mp h
    obtain rfl := Option.some.inj h
    rw [Element.isFinite, props_isFinite identity hn.1, elements?_isFinite c children hn.2 hes]
    rfl

theorem elements?_isFinite (c : ContentSetting) {parent : String} {index : Nat} : (ns : List Markup.Node) →
    Markup.Node.allFinite ns = true → ∀ {es}, c.elements? parent index ns = some es → Element.allFinite es = true
  | [], _, es, h => by
    rw [elements?] at h
    obtain rfl := Option.some.inj h
    rfl
  | n :: ns, hns, es, h => by
    rw [Markup.Node.allFinite, Bool.and_eq_true] at hns
    rw [elements?] at h
    obtain ⟨first, hfirst, h⟩ := Option.bind_eq_some_iff.mp h
    obtain ⟨others, hothers, h⟩ := Option.bind_eq_some_iff.mp h
    obtain rfl := Option.some.inj h
    rw [Element.allFinite, element?_isFinite c n hns.1 hfirst, elements?_isFinite c ns hns.2 hothers]
    rfl

end

end ContentSetting

/-- The literals in the default content of a slot are finite. -/
theorem Slot.content?_isFinite {digest : Digest} {l : Library} {pattern? : DeclarationKey → Option PatternIdentity}
    {libraryId : String} {maxDepth : Nat} {slotId : String} {source : SlotSource} {e : Element}
    (h : content? digest l pattern? libraryId maxDepth slotId source = some e) : e.isFinite = true := by
  obtain ⟨m, ⟨_, -, hparse⟩, hmade⟩ := (content?_eq_some_iff ..).mp h
  exact ContentSetting.element?_isFinite _ m.root (Markup.parse_isFinite hparse) hmade

end PatternCatalog
