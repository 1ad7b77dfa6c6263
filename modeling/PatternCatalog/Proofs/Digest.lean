/-
  PatternCatalog.Proofs.Digest — when digests tell texts apart.

  No digest is injective, so whoever needs distinct ids says of which texts (`Separates`); the
  property is decidable and is asked only of the texts that a run digests. A hexadecimal digest
  contains no colon (`sha256_colonFree`), so the text of a nested id gives back the id of its
  parent and the name (`join_inj`).
-/

import PatternCatalog.Digest
import PatternCatalog.Identity

namespace PatternCatalog

namespace Digest

/-- Whether no two of some texts have the same digest. -/
def Separates (d : Digest) (texts : List String) : Prop := ∀ t ∈ texts, ∀ u ∈ texts, d t = d u → t = u

instance (d : Digest) (texts : List String) : Decidable (d.Separates texts) := by
  unfold Separates; infer_instance

theorem Separates.mono {d : Digest} {texts texts' : List String} (h : d.Separates texts') (hsub : texts ⊆ texts') :
    d.Separates texts := fun t ht u hu => h t (hsub ht) u (hsub hu)

/-- Texts with pairwise different digests are told apart. -/
theorem Separates.of_nodup {d : Digest} {texts : List String} (h : (texts.map d).Nodup) : d.Separates texts := by
  induction texts with
  | nil => exact fun t ht => nomatch ht
  | cons a texts ih =>
    rw [List.map_cons, List.nodup_cons] at h
    intro t ht u hu hd
    rcases List.mem_cons.mp ht with hta | ht <;> rcases List.mem_cons.mp hu with hua | hu
    · rw [hta, hua]
    · exact absurd (List.mem_map.mpr ⟨u, hu, by rw [← hd, hta]⟩) h.1
    · exact absurd (List.mem_map.mpr ⟨t, ht, by rw [hd, hua]⟩) h.1
    · exact ih h.2 t ht u hu hd

def ColonFree (d : Digest) : Prop := ∀ t, ':' ∉ (d t).toList

theorem digitChar_ne_colon : ∀ n : Nat, n.digitChar ≠ ':'
  | 0 | 1 | 2 | 3 | 4 | 5 | 6 | 7 | 8 | 9 | 10 | 11 | 12 | 13 | 14 | 15 => by decide
  | n + 16 => by simp [Nat.digitChar]

theorem sha256_colonFree : ColonFree sha256 := by
  intro t h
  rw [sha256, String.toList_ofList] at h
  obtain ⟨w, -, h⟩ := List.mem_flatMap.mp h
  obtain ⟨b, -, h⟩ := List.mem_flatMap.mp h
  simp only [hexOctet, List.mem_cons, List.not_mem_nil, or_false] at h
  rcases h with h | h
  · exact digitChar_ne_colon _ h.symm
  · exact digitChar_ne_colon _ h.symm

end Digest

/-! ## The text of a nested id -/

namespace Identity

/-- What the id of something that belongs to a parent is the digest of. -/
def join (parent name : String) : String := ":".intercalate [parent, name]

theorem append_colon_inj {s t s' t' : List Char} (hs : ':' ∉ s) (hs' : ':' ∉ s')
    (h : s ++ ':' :: t = s' ++ ':' :: t') : s = s' ∧ t = t' := by
  induction s generalizing s' with
  | nil =>
    cases s' with
    | nil => exact ⟨rfl, (List.cons.inj h).2⟩
    | cons c s' => exact absurd (List.cons.inj h).1 (fun e => hs' (e ▸ List.mem_cons_self))
  | cons c s ih =>
    cases s' with
    | nil => exact absurd (List.cons.inj h).1.symm (fun e => hs (e ▸ List.mem_cons_self))
    | cons c' s' =>
      obtain ⟨rfl, htail⟩ := List.cons.inj h
      obtain ⟨rfl, rfl⟩ := ih (fun m => hs (List.mem_cons_of_mem _ m)) (fun m => hs' (List.mem_cons_of_mem _ m)) htail
      exact ⟨rfl, rfl⟩

theorem join_toList (parent name : String) : (join parent name).toList = parent.toList ++ ':' :: name.toList := by
  simp [join]

theorem join_inj {p n p' n' : String} (h : join p n = join p' n') (hp : ':' ∉ p.toList) (hp' : ':' ∉ p'.toList) :
    p = p' ∧ n = n' := by
  have hlists : p.toList ++ ':' :: n.toList = p'.toList ++ ':' :: n'.toList := by
    rw [← join_toList, ← join_toList, h]
  obtain ⟨h1, h2⟩ := append_colon_inj hp hp' hlists
  exact ⟨String.toList_inj.mp h1, String.toList_inj.mp h2⟩

/-- A name without a colon is told from what it is joined to, whatever that is. -/
theorem join_name_inj {p n p' n' : String} (h : join p n = join p' n') (hn : ':' ∉ n.toList) (hn' : ':' ∉ n'.toList) :
    p = p' ∧ n = n' := by
  have hlists : (n.toList.reverse ++ ':' :: p.toList.reverse) = n'.toList.reverse ++ ':' :: p'.toList.reverse := by
    simpa [join_toList] using congrArg (fun t : String => t.toList.reverse) h
  obtain ⟨hname, hparent⟩ := append_colon_inj (by simpa using hn) (by simpa using hn') hlists
  exact ⟨String.toList_inj.mp (List.reverse_inj.mp hparent), String.toList_inj.mp (List.reverse_inj.mp hname)⟩

/-- Without collisions the id of something nested gives back what its parent was made of, and the name. -/
theorem nested_inj {d : Digest} {texts : List String} (h : d.Separates texts) (hcolon : d.ColonFree) {c n c' n' : String}
    (hc : c ∈ texts) (hc' : c' ∈ texts) (ht : join (d c) n ∈ texts) (ht' : join (d c') n' ∈ texts)
    (hid : nested d (d c) n = nested d (d c') n') : c = c' ∧ n = n' := by
  obtain ⟨hparent, hname⟩ := join_inj (h _ ht _ ht' hid) (hcolon c) (hcolon c')
  exact ⟨h c hc c' hc' hparent, hname⟩

theorem freshPattern_eq (d : Digest) (contextId : String) : freshPattern d contextId = d contextId := by
  rw [freshPattern, assign, String.intercalate_singleton]

end Identity

end PatternCatalog
