/-
  PatternCatalog.Proofs.Slot.Mirror — default content has the shape of its example.

  An address leads from the root of a tree to one of its nodes, by the places of children
  (`Node.at?`, `Element.at?`). The content of a slot has an element at the addresses of the
  nodes of the example and at no other; the element at an address shows the pattern of the tag
  there and the literal attributes, and is nested in the element above it (`Mirrors`).
  - `content_mirrors`: a slot has content exactly when its documentation has an example that
    is read and each tag, at each address, has a pattern; then the content mirrors the example,
    and its ids are pairwise different, if digests tell the texts apart that ids are made of.
  - `nested_cards_mirror`: two cards within a card.
-/

import Mathlib.Data.List.Induction
import PatternCatalog.Proofs.Binary64
import PatternCatalog.Proofs.Digest
import PatternCatalog.Slot.Content

namespace PatternCatalog

open Identity (join nested)

/-! ## Addresses -/

namespace Markup

/-- The node at an address. -/
def Node.at? (n : Node) : List Nat → Option Node
  | [] => some n
  | i :: p => n.children[i]?.bind fun m => m.at? p

mutual

/-- The addresses of a node and of those below it. -/
def Node.addresses : Node → List (List Nat)
  | ⟨_, _, children⟩ => [] :: Node.addressesFrom 0 children

/-- The addresses in some children from a place on. -/
def Node.addressesFrom (index : Nat) : List Node → List (List Nat)
  | [] => []
  | n :: ns => n.addresses.map (index :: ·) ++ Node.addressesFrom (index + 1) ns

end

/-- The attributes whose values are literals. -/
def Node.literals (n : Node) : List (String × LiteralValue) :=
  n.attributes.filterMap fun a => a.value.map fun value => (a.name, value)

theorem Node.mem_addressesFrom {index i : Nat} {p : List Nat} {ns : List Node} {m : Node} (hm : ns[i]? = some m)
    (hp : p ∈ m.addresses) : (index + i) :: p ∈ Node.addressesFrom index ns := by
  induction ns generalizing index i with
  | nil => cases hm
  | cons n ns ih =>
    rw [addressesFrom]
    cases i with
    | zero =>
      obtain rfl : n = m := Option.some.inj hm
      exact List.mem_append_left _ (List.mem_map_of_mem hp)
    | succ i =>
      have hrest : (index + 1 + i) :: p ∈ addressesFrom (index + 1) ns := ih hm
      rw [Nat.add_right_comm, Nat.add_assoc] at hrest
      exact List.mem_append_right _ hrest

theorem Node.addresses_eq (n : Node) : n.addresses = [] :: addressesFrom 0 n.children := by
  cases n
  rw [addresses]

theorem Node.mem_addresses {p : List Nat} {n : Node} (h : (n.at? p).isSome) : p ∈ n.addresses := by
  induction p generalizing n with
  | nil =>
    rw [addresses_eq]
    exact List.mem_cons_self
  | cons i p ih =>
    obtain ⟨m, hm⟩ := Option.isSome_iff_exists.mp h
    obtain ⟨child, hchild, hm⟩ := Option.bind_eq_some_iff.mp hm
    have hbelow : (0 + i) :: p ∈ addressesFrom 0 n.children :=
      mem_addressesFrom hchild (ih (Option.isSome_of_eq_some hm))
    rw [Nat.zero_add] at hbelow
    rw [addresses_eq]
    exact List.mem_cons_of_mem _ hbelow

end Markup

/-- The element at an address. -/
def Element.at? (e : Element) : List Nat → Option Element
  | [] => some e
  | i :: p => e.children[i]?.bind fun f => f.at? p

theorem Element.at?_concat (e : Element) (p : List Nat) (i : Nat) :
    e.at? (p ++ [i]) = (e.at? p).bind fun f => f.children[i]? := by
  induction p generalizing e with
  | nil => simp [at?]
  | cons j p ih =>
    rw [List.cons_append, at?, at?]
    cases e.children[j]? with
    | none => rfl
    | some f => exact ih f

/-! ## Elements and nodes -/

namespace ContentSetting

variable (c : ContentSetting)

/-- What an element takes from the node that it stands for, and from that alone. -/
structure Shows (n : Markup.Node) (e : Element) : Prop where
  libraryId : e.libraryId = c.libraryId
  pattern : ∃ identity, c.scope.tag? n.tag >>= c.pattern? = some identity ∧ e.patternContextId = identity.contextId ∧
    e.patternId = identity.id ∧ ∀ p ∈ e.props, p.propertyId = identity.propertyIds.lookup p.propertyName
  literals : e.props.map (fun p => (p.propertyName, p.value)) = n.literals

/-- The content of a slot, as a tree that mirrors its example. -/
structure Mirrors (slotId : String) (n : Markup.Node) (e : Element) : Prop where
  shape : ∀ p, (e.at? p).isSome = (n.at? p).isSome
  shows : ∀ p m f, n.at? p = some m → e.at? p = some f → c.Shows m f
  root : e.parent = slotId ∧ e.id = nested c.digest slotId "default"
  child : ∀ p f, e.at? p = some f → ∀ (i : Nat) (g : Element), f.children[i]? = some g → g.parent = f.id ∧
    g.id = nested c.digest f.id (toString i)

theorem elements?_eq_some {parent : String} {index : Nat} {ns : List Markup.Node} {es : List Element}
    (h : c.elements? parent index ns = some es) : es.length = ns.length ∧
    ∀ (i : Nat) (m : Markup.Node) (f : Element), ns[i]? = some m → es[i]? = some f →
      c.element? parent (nested c.digest parent (toString (index + i))) m = some f := by
  induction ns generalizing index es with
  | nil =>
    rw [elements?] at h
    obtain rfl := Option.some.inj h
    exact ⟨rfl, fun _ _ _ hm => nomatch hm⟩
  | cons n ns ih =>
    rw [elements?] at h
    obtain ⟨first, hfirst, h⟩ := Option.bind_eq_some_iff.mp h
    obtain ⟨others, hothers, h⟩ := Option.bind_eq_some_iff.mp h
    obtain rfl := Option.some.inj h
    obtain ⟨hlength, hrest⟩ := ih hothers
    refine ⟨congrArg Nat.succ hlength, fun i m f hm hf => ?_⟩
    cases i with
    | zero =>
      obtain rfl : n = m := Option.some.inj hm
      obtain rfl : first = f := Option.some.inj hf
      exact hfirst
    | succ i =>
      have hbelow := hrest i m f hm hf
      rwa [Nat.add_right_comm, Nat.add_assoc] at hbelow

/-- An element is made of its node, and its children of those of the node. -/
theorem element?_eq_some {parent id : String} {n : Markup.Node} {e : Element} (h : c.element? parent id n = some e) :
    e.parent = parent ∧ e.id = id ∧ c.Shows n e ∧ e.children.length = n.children.length ∧
      ∀ (i : Nat) (m : Markup.Node) (f : Element), n.children[i]? = some m → e.children[i]? = some f →
        c.element? id (nested c.digest id (toString i)) m = some f := by
  obtain ⟨tag, attributes, children⟩ := n
  rw [element?] at h
  obtain ⟨identity, hidentity, h⟩ := Option.bind_eq_some_iff.mp h
  obtain ⟨es, hes, h⟩ := Option.bind_eq_some_iff.mp h
  obtain rfl := Option.some.inj h
  obtain ⟨hlength, hchildren⟩ := c.elements?_eq_some hes
  refine ⟨rfl, rfl, ⟨rfl, ⟨identity, hidentity, rfl, rfl, ?_⟩, ?_⟩, hlength, ?_⟩
  · intro p hp
    obtain ⟨a, -, hp⟩ := List.mem_filterMap.mp hp
    obtain ⟨v, -, rfl⟩ := Option.map_eq_some_iff.mp hp
    rfl
  · simp only [props, List.map_filterMap, Option.map_map, Markup.Node.literals]
    rfl
  · simpa only [Nat.zero_add] using hchildren

/-! ## Trees -/

/-- The element at an address is made of the node there. -/
theorem element?_at? {parent id : String} {n : Markup.Node} {e : Element} (h : c.element? parent id n = some e) (p : List Nat) :
    n.at? p = none ∧ e.at? p = none ∨
      ∃ above own m f, n.at? p = some m ∧ e.at? p = some f ∧ c.element? above own m = some f := by
  induction p generalizing parent id n e with
  | nil => exact .inr ⟨parent, id, n, e, rfl, rfl, h⟩
  | cons i p ih =>
    obtain ⟨-, -, -, hlength, hchildren⟩ := c.element?_eq_some h
    rw [Markup.Node.at?, Element.at?]
    by_cases hi : i < n.children.length
    · have hm := List.getElem?_eq_getElem hi
      have hf := List.getElem?_eq_getElem (hlength ▸ hi)
      rw [hm, hf, Option.bind_some, Option.bind_some]
      exact ih (hchildren i _ _ hm hf)
    · rw [List.getElem?_eq_none (Nat.le_of_not_lt hi), List.getElem?_eq_none (hlength ▸ Nat.le_of_not_lt hi)]
      exact .inl ⟨rfl, rfl⟩

theorem mirrors_of_element? {slotId : String} {n : Markup.Node} {e : Element}
    (h : c.element? slotId (nested c.digest slotId "default") n = some e) : c.Mirrors slotId n e where
  shape p := by
    rcases c.element?_at? h p with ⟨hn, he⟩ | ⟨_, _, m, f, hm, hf, -⟩
    · rw [hn, he]
      rfl
    · rw [hm, hf]
      rfl
  shows p m f hm hf := by
    rcases c.element?_at? h p with ⟨hn, -⟩ | ⟨_, _, m', f', hm', hf', hmade⟩
    · rw [hn] at hm
      cases hm
    · obtain rfl := Option.some.inj (hm.symm.trans hm')
      obtain rfl := Option.some.inj (hf.symm.trans hf')
      exact (c.element?_eq_some hmade).2.2.1
  root := by
    obtain ⟨hparent, hid, -⟩ := c.element?_eq_some h
    exact ⟨hparent, hid⟩
  child p f hf i g hg := by
    rcases c.element?_at? h p with ⟨-, he⟩ | ⟨_, id, m, f', -, hf', hmade⟩
    · rw [he] at hf
      cases hf
    · obtain rfl := Option.some.inj (hf.symm.trans hf')
      obtain ⟨-, rfl, -, hlength, hchildren⟩ := c.element?_eq_some hmade
      obtain ⟨hi, -⟩ := List.getElem?_eq_some_iff.mp hg
      have hbelow := hchildren i _ _ (List.getElem?_eq_getElem (hlength ▸ hi)) hg
      obtain ⟨hparent, hid, -⟩ := c.element?_eq_some hbelow
      exact ⟨hparent, hid⟩

mutual

/-- Tags that all have patterns make an element. -/
theorem exists_element? (parent id : String) : (n : Markup.Node) →
    (∀ p m, n.at? p = some m → (c.scope.tag? m.tag >>= c.pattern?).isSome) → ∃ e, c.element? parent id n = some e
  | ⟨tag, attributes, children⟩, h => by
    obtain ⟨identity, hidentity⟩ := Option.isSome_iff_exists.mp (h [] _ rfl)
    obtain ⟨es, hes⟩ := exists_elements? id 0 children fun i n hn p m hm => h (i :: p) m (by rw [Markup.Node.at?, hn]; exact hm)
    refine Option.isSome_iff_exists.mp ?_
    rw [element?, hidentity, hes]
    rfl

theorem exists_elements? (parent : String) (index : Nat) : (ns : List Markup.Node) →
    (∀ (i : Nat) (n : Markup.Node), ns[i]? = some n → ∀ p m, n.at? p = some m → (c.scope.tag? m.tag >>= c.pattern?).isSome) →
    ∃ es, c.elements? parent index ns = some es
  | [], _ => ⟨[], rfl⟩
  | n :: ns, h => by
    obtain ⟨first, hfirst⟩ := exists_element? parent (nested c.digest parent (toString index)) n (h 0 n rfl)
    obtain ⟨others, hothers⟩ := exists_elements? parent (index + 1) ns fun i => h (i + 1)
    refine ⟨first :: others, ?_⟩
    rw [elements?, hfirst, hothers]
    rfl

end

theorem element?_isSome_iff (parent id : String) (n : Markup.Node) : (c.element? parent id n).isSome ↔
    ∀ p m, n.at? p = some m → (c.scope.tag? m.tag >>= c.pattern?).isSome := by
  constructor
  · intro h p m hm
    obtain ⟨e, he⟩ := Option.isSome_iff_exists.mp h
    rcases c.element?_at? he p with ⟨hn, -⟩ | ⟨_, _, m', f, hm', -, hmade⟩
    · rw [hn] at hm
      cases hm
    · obtain rfl := Option.some.inj (hm.symm.trans hm')
      obtain ⟨identity, hidentity, -⟩ := (c.element?_eq_some hmade).2.2.1.pattern
      exact Option.isSome_of_eq_some hidentity
  · intro h
    obtain ⟨e, he⟩ := c.exists_element? parent id n h
    exact Option.isSome_of_eq_some he

end ContentSetting

/-! ## Ids -/

namespace Slot

/-- The text that the id of the element at an address is the digest of. -/
def elementText (d : Digest) (slotId : String) (p : List Nat) : String :=
  p.foldl (fun text i => join (d text) (toString i)) (join slotId "default")

theorem elementText_concat (d : Digest) (slotId : String) (p : List Nat) (i : Nat) :
    elementText d slotId (p ++ [i]) = join (d (elementText d slotId p)) (toString i) := by
  rw [elementText, elementText, List.foldl_append]
  rfl

theorem toString_toList (n : Nat) : (toString n).toList = Binary64.digitText n := by
  simp [toString, Nat.repr, Binary64.digitText]

theorem place_colonFree (n : Nat) : ':' ∉ (toString n).toList := by
  intro h
  rw [toString_toList] at h
  cases (Binary64.digitText_spec n).2.2 ':' h

theorem place_ne_default (n : Nat) : toString n ≠ "default" := by
  intro h
  have hdigit := (Binary64.digitText_spec n).2.2 'd'
  rw [← toString_toList, h] at hdigit
  cases hdigit (by decide)

theorem place_inj {m n : Nat} (h : toString m = toString n) : m = n := by
  have hdigits : Binary64.digitText m = Binary64.digitText n := by rw [← toString_toList, ← toString_toList, h]
  rw [← (Binary64.digitText_spec m).1, hdigits, (Binary64.digitText_spec n).1]

theorem elementText_inj_step {d : Digest} {slotId : String} {p q : List Nat} {i j : Nat}
    (h : elementText d slotId (p ++ [i]) = elementText d slotId (q ++ [j])) :
    d (elementText d slotId p) = d (elementText d slotId q) ∧ i = j := by
  rw [elementText_concat, elementText_concat] at h
  obtain ⟨hparent, hname⟩ := Identity.join_name_inj h (place_colonFree i) (place_colonFree j)
  exact ⟨hparent, place_inj hname⟩

/-- The root is named otherwise than any child. -/
theorem elementText_root_ne {d : Digest} {slotId : String} (p : List Nat) (i : Nat) :
    elementText d slotId (p ++ [i]) ≠ elementText d slotId [] := by
  intro h
  rw [elementText_concat] at h
  exact place_ne_default i (Identity.join_name_inj h (place_colonFree i) (by decide)).2

end Slot

namespace ContentSetting.Mirrors

variable {c : ContentSetting} {slotId : String} {n : Markup.Node} {e : Element} (h : c.Mirrors slotId n e)

include h

/-- The id of an element is made of the slot and the address. -/
theorem id_eq {p : List Nat} {f : Element} (hf : e.at? p = some f) : f.id = c.digest (Slot.elementText c.digest slotId p) := by
  induction p using List.reverseRecOn generalizing f with
  | nil =>
    obtain rfl := Option.some.inj hf
    exact h.root.2
  | append_singleton p i ih =>
    rw [Element.at?_concat] at hf
    obtain ⟨above, habove, hf⟩ := Option.bind_eq_some_iff.mp hf
    rw [(h.child p above habove i f hf).2, ih habove, Slot.elementText_concat]
    rfl

theorem elementText_mem {p : List Nat} (hp : (e.at? p).isSome) :
    Slot.elementText c.digest slotId p ∈ n.addresses.map (Slot.elementText c.digest slotId) :=
  List.mem_map_of_mem (Markup.Node.mem_addresses (h.shape p ▸ hp))

/-- Without collisions no two elements have one id. -/
theorem ids_differ (hd : c.digest.Separates (n.addresses.map (Slot.elementText c.digest slotId))) {p q : List Nat}
    {f g : Element} (hf : e.at? p = some f) (hg : e.at? q = some g) (hid : f.id = g.id) : p = q := by
  rw [h.id_eq hf, h.id_eq hg] at hid
  -- from the ends of the addresses up, where the ids of the elements above are equal again
  induction p using List.reverseRecOn generalizing q f g with
  | nil =>
    have htext := hd _ (h.elementText_mem (Option.isSome_of_eq_some hf)) _ (h.elementText_mem (Option.isSome_of_eq_some hg)) hid
    rcases List.eq_nil_or_concat q with rfl | ⟨q, j, rfl⟩
    · rfl
    · exact absurd htext.symm (List.concat_eq_append ▸ Slot.elementText_root_ne q j)
  | append_singleton p i ih =>
    have htext := hd _ (h.elementText_mem (Option.isSome_of_eq_some hf)) _ (h.elementText_mem (Option.isSome_of_eq_some hg)) hid
    rcases List.eq_nil_or_concat q with rfl | ⟨q, j, rfl⟩
    · exact absurd htext (Slot.elementText_root_ne p i)
    · rw [List.concat_eq_append] at hg htext ⊢
      obtain ⟨hparent, rfl⟩ := Slot.elementText_inj_step htext
      rw [Element.at?_concat] at hf hg
      obtain ⟨above, habove, -⟩ := Option.bind_eq_some_iff.mp hf
      obtain ⟨above', habove', -⟩ := Option.bind_eq_some_iff.mp hg
      rw [ih habove habove' hparent]

end ContentSetting.Mirrors

/-! ## Content -/

/-- The example of a slot, as it is read. -/
def SlotSource.ReadsAs (source : SlotSource) (maxDepth : Nat) (m : Markup.Module) : Prop :=
  ∃ block, source.doc >>= Doc.defaultBlock? = some block ∧ Markup.parse block maxDepth = .ok m

namespace Slot

variable (digest : Digest) (l : Library) (pattern? : DeclarationKey → Option PatternIdentity) (libraryId : String)
  (maxDepth : Nat) (slotId : String) (source : SlotSource)

/-- What the elements of the example of a slot are made with. -/
def contentSetting (m : Markup.Module) : ContentSetting := ⟨digest, ⟨l, source.file, m.imports⟩, pattern?, libraryId⟩

theorem content?_eq_some_iff {e : Element} : content? digest l pattern? libraryId maxDepth slotId source = some e ↔
    ∃ m, source.ReadsAs maxDepth m ∧
      (contentSetting digest l pattern? libraryId source m).element? slotId (nested digest slotId "default") m.root = some e := by
  unfold content? SlotSource.ReadsAs
  simp only [Option.bind_eq_bind, Option.bind_eq_some_iff]
  constructor
  · rintro ⟨block, hblock, m, hm, he⟩
    have hparse : Markup.parse block maxDepth = .ok m := by
      cases hp : Markup.parse block maxDepth with
      | error fault => rw [hp] at hm; cases hm
      | ok m' => rw [hp] at hm; rw [Option.some.inj hm]
    exact ⟨m, ⟨block, hblock, hparse⟩, he⟩
  · rintro ⟨m, ⟨block, hblock, hm⟩, he⟩
    exact ⟨block, hblock, m, by rw [hm]; rfl, he⟩

/-- A slot has content exactly when all tags of its example have patterns; it mirrors the example. -/
theorem content_mirrors :
    ((content? digest l pattern? libraryId maxDepth slotId source).isSome ↔
      ∃ m, source.ReadsAs maxDepth m ∧ ∀ p n, m.root.at? p = some n →
        ∃ key, Scope.tag? ⟨l, source.file, m.imports⟩ n.tag = some key ∧ (pattern? key).isSome) ∧
    ∀ e, content? digest l pattern? libraryId maxDepth slotId source = some e → ∃ m, source.ReadsAs maxDepth m ∧
      (contentSetting digest l pattern? libraryId source m).Mirrors slotId m.root e ∧
      (digest.Separates (m.root.addresses.map (elementText digest slotId)) →
        ∀ p q f g, e.at? p = some f → e.at? q = some g → f.id = g.id → p = q) := by
  constructor
  · have hmade : (content? digest l pattern? libraryId maxDepth slotId source).isSome ↔ ∃ m, source.ReadsAs maxDepth m ∧
        ((contentSetting digest l pattern? libraryId source m).element? slotId (nested digest slotId "default") m.root).isSome := by
      simp only [Option.isSome_iff_exists, content?_eq_some_iff, ← exists_and_left]
      exact exists_comm
    have hknown (m : Markup.Module) (n : Markup.Node) :
        (Scope.tag? ⟨l, source.file, m.imports⟩ n.tag >>= pattern?).isSome ↔
          ∃ key, Scope.tag? ⟨l, source.file, m.imports⟩ n.tag = some key ∧ (pattern? key).isSome := by
      cases Scope.tag? ⟨l, source.file, m.imports⟩ n.tag <;> simp
    rw [hmade]
    refine exists_congr fun m => and_congr_right fun _ => ?_
    rw [ContentSetting.element?_isSome_iff]
    exact forall₃_congr fun p n _ => hknown m n
  · intro e he
    obtain ⟨m, hm, he⟩ := (content?_eq_some_iff ..).mp he
    have hmirrors := ContentSetting.mirrors_of_element? _ he
    exact ⟨m, hm, hmirrors, fun hd p q f g hf hg => hmirrors.ids_differ hd hf hg⟩

/-! ## Two cards within a card -/

def cards : Library :=
  .ofFiles ⟨"/lib"⟩ none [".d.ts"] [⟨⟨"/lib/index.d.ts"⟩,
    { exports := [⟨"Card", .here "Card"⟩]
      declarations := [⟨"Card", 21, none, .variable (some (.reference none ["FC"] []))⟩] }⟩]

def cardPattern? (key : DeclarationKey) : Option PatternIdentity :=
  if key = ⟨0, 0⟩ then some ⟨"Card", "Card-id", [("label", "Card-label")]⟩ else none

/-- The documentation of a slot with an example of three cards; the value of `wide` is no literal. -/
def cardSource : SlotSource where
  file := 0
  doc := some ("*\n * @default\n * ```tsx\n * export default () => " ++
    "<Card label='a' wide=\x7bx\x7d><Card /><Card label='b' /></Card>;\n * ```\n ")

set_option maxRecDepth 100000 in
theorem nested_cards_mirror : ∃ e m, content? .sha256 cards cardPattern? "library-1" 16 "slot-1" cardSource = some e ∧
    cardSource.ReadsAs 16 m ∧ m.root.addresses = [[], [0], [1]] ∧
    (contentSetting .sha256 cards cardPattern? "library-1" cardSource m).Mirrors "slot-1" m.root e ∧
    ∀ p q f g, e.at? p = some f → e.at? q = some g → f.id = g.id → p = q := by
  have hevaluated : (content? .sha256 cards cardPattern? "library-1" 16 "slot-1" cardSource).isSome ∧
      ((cardSource.doc >>= Doc.defaultBlock?).bind fun block => (Markup.parse block 16).toOption).map (·.root.addresses) =
        some [[], [0], [1]] ∧
      ([[], [0], [1]].map fun p => Digest.sha256 (elementText .sha256 "slot-1" p)).Nodup := by decide +kernel
  obtain ⟨hsome, haddresses, hnodup⟩ := hevaluated
  obtain ⟨e, he⟩ := Option.isSome_iff_exists.mp hsome
  obtain ⟨m, hm, hmirrors, hids⟩ := (content_mirrors .sha256 cards cardPattern? "library-1" 16 "slot-1" cardSource).2 e he
  have hread : m.root.addresses = [[], [0], [1]] := by
    obtain ⟨block, hblock, hparse⟩ := hm
    rw [hblock, Option.bind_some, hparse] at haddresses
    exact Option.some.inj haddresses
  refine ⟨e, m, he, hm, hread, hmirrors, hids ?_⟩
  rw [hread]
  exact Digest.Separates.of_nodup (by rwa [List.map_map])

end Slot

end PatternCatalog
