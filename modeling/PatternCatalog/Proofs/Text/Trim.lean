/-
  PatternCatalog.Proofs.Text.Trim — texts that trimming leaves alone.

  A text without a blank at its ends is trimmed to itself (`trim_of_ends`), and no other is left
  alone at its end (`trimEnd_eq_self_iff`). What stands before such a text only loses the blanks at
  its start (`trim_append`). Of joined lines, trimming takes the blank ones at both ends and what is
  blank at the ends of the others, and leaves all lines between them as they are (`trim_unlines`).
-/

import Mathlib.Data.List.DropRight
import PatternCatalog.Proofs.Text.Lines

namespace PatternCatalog.Text

variable {s t : List Char}

theorem trimStart_of_head (h : ∀ c ∈ s.head?, isBlank c = false) : trimStart s = s := by
  cases s with
  | nil => rfl
  | cons c s => exact List.dropWhile_cons_of_neg (Bool.eq_false_iff.mp (h c rfl))

theorem trimEnd_of_last (h : ∀ c ∈ s.getLast?, isBlank c = false) : trimEnd s = s := by
  have hreverse : trimStart s.reverse = s.reverse := trimStart_of_head (by rwa [List.head?_reverse])
  calc trimEnd s
    _ = (trimStart s.reverse).reverse := rfl
    _ = s := by rw [hreverse, List.reverse_reverse]

theorem trim_of_ends (hhead : ∀ c ∈ s.head?, isBlank c = false) (hlast : ∀ c ∈ s.getLast?, isBlank c = false) : trim s = s := by
  rw [trim, trimStart_of_head hhead, trimEnd_of_last hlast]

theorem head_of_trimStart (h : trimStart s = s) : ∀ c ∈ s.head?, isBlank c = false := by
  cases s with
  | nil =>
    intro c hc
    cases hc
  | cons c s =>
    have hc := List.dropWhile_eq_self_iff.mp h (Nat.succ_pos _)
    exact fun d hd => Option.some.inj hd ▸ Bool.eq_false_iff.mpr hc

theorem last_of_trimEnd (h : trimEnd s = s) : ∀ c ∈ s.getLast?, isBlank c = false := by
  have hreverse : trimStart s.reverse = s.reverse := List.reverse_injective (h.trans (List.reverse_reverse s).symm)
  simpa using head_of_trimStart hreverse

theorem trimEnd_eq_self_iff : trimEnd s = s ↔ ∀ c ∈ s.getLast?, isBlank c = false := ⟨last_of_trimEnd, trimEnd_of_last⟩

theorem trimStart_sublist (s : List Char) : (trimStart s).Sublist s := (List.dropWhile_suffix isBlank).sublist

theorem trimEnd_sublist (s : List Char) : (trimEnd s).Sublist s := (List.rdropWhile_prefix isBlank s).sublist

theorem trimStart_append (hhead : ∀ c ∈ t.head?, isBlank c = false) : trimStart (s ++ t) = trimStart s ++ t := by
  induction s with
  | nil => exact trimStart_of_head hhead
  | cons c s ih =>
    rw [trimStart, trimStart, List.cons_append, List.dropWhile_cons, List.dropWhile_cons]
    split
    · exact ih
    · rfl

theorem trim_append (ht : t ≠ []) (hhead : ∀ c ∈ t.head?, isBlank c = false) (hlast : ∀ c ∈ t.getLast?, isBlank c = false) :
    trim (s ++ t) = trimStart s ++ t := by
  rw [trim, trimStart_append hhead]
  have hend : (trimStart s ++ t).getLast? = t.getLast? := by
    rw [List.getLast?_append, List.getLast?_eq_some_getLast ht, Option.some_or]
  exact trimEnd_of_last (hend ▸ hlast)

/-! ## Blank texts -/

theorem trimStart_eq_nil : trimStart s = [] ↔ ∀ c ∈ s, isBlank c = true := List.dropWhile_eq_nil_iff

theorem trimEnd_eq_nil : trimEnd s = [] ↔ ∀ c ∈ s, isBlank c = true := by
  simp [trimEnd, List.dropWhile_eq_nil_iff]

theorem trim_eq_nil : trim s = [] ↔ ∀ c ∈ s, isBlank c = true := by
  refine ⟨fun h => trimStart_eq_nil.mp ?_, fun h => ?_⟩
  · have hagain : trimStart (trimStart s) = [] := trimStart_eq_nil.mpr (trimEnd_eq_nil.mp h)
    rwa [trimStart, trimStart, List.dropWhile_idempotent] at hagain
  · rw [trim, trimStart_eq_nil.mpr h]
    rfl

theorem trimStart_append_of_blank (h : trim s = []) (t : List Char) : trimStart (s ++ t) = trimStart t :=
  List.dropWhile_append_of_pos (trim_eq_nil.mp h)

theorem trimStart_append_of_some (h : trim s ≠ []) (t : List Char) : trimStart (s ++ t) = trimStart s ++ t := by
  have hsome : trimStart s ≠ [] := fun hnil => h (trim_eq_nil.mpr (trimStart_eq_nil.mp hnil))
  rw [trimStart, List.dropWhile_append, if_neg (by rwa [List.isEmpty_iff])]
  rfl

theorem trimEnd_append_of_some (s : List Char) (h : trim t ≠ []) : trimEnd (s ++ t) = s ++ trimEnd t := by
  have hsome : t.reverse.dropWhile isBlank ≠ [] := fun hnil =>
    h (trim_eq_nil.mpr (trimEnd_eq_nil.mp (congrArg List.reverse hnil)))
  rw [trimEnd, List.reverse_append, List.dropWhile_append, if_neg (by rwa [List.isEmpty_iff]), List.reverse_append,
    List.reverse_reverse]
  rfl

/-! ## Joined lines -/

variable {opening closing : List Char} {blanks body : List (List Char)}

theorem trimStart_unlines_blanks (hblanks : ∀ l ∈ blanks, trim l = []) {ls : List (List Char)} (hne : ls ≠ []) :
    trimStart (unlines (blanks ++ ls)) = trimStart (unlines ls) := by
  induction blanks with
  | nil => rfl
  | cons l blanks ih =>
    have hblank : trim (l ++ ['\n']) = [] := by
      have hl := trim_eq_nil.mp (hblanks l List.mem_cons_self)
      refine trim_eq_nil.mpr fun c hc => ?_
      rcases List.mem_append.mp hc with hc | hc
      · exact hl c hc
      · exact List.mem_singleton.mp hc ▸ rfl
    have hrest : blanks ++ ls ≠ [] := fun hnil => hne (List.append_eq_nil_iff.mp hnil).2
    rw [List.cons_append, unlines_cons hrest, ← List.singleton_append, ← List.append_assoc, trimStart_append_of_blank hblank]
    exact ih fun x hx => hblanks x (List.mem_cons_of_mem _ hx)

theorem trim_unlines (hblanks : ∀ l ∈ blanks, trim l = []) (hopening : trim opening ≠ []) (hclosing : trim closing ≠ [])
    (rest : List (List Char)) :
    trim (unlines (blanks ++ opening :: body ++ closing :: rest)) =
      unlines (trimStart opening :: body ++ [trimEnd (unlines (closing :: rest))]) := by
  have hlast : trim (unlines (closing :: rest)) ≠ [] := by
    refine fun hnil => hclosing (trim_eq_nil.mpr fun c hc => trim_eq_nil.mp hnil c ?_)
    cases rest with
    | nil => exact hc
    | cons l rest => exact List.mem_append_left _ hc
  have hhead : trimStart (unlines (opening :: (body ++ closing :: rest))) =
      unlines (trimStart opening :: (body ++ closing :: rest)) := by
    rw [unlines_cons (by simp), unlines_cons (by simp), trimStart_append_of_some hopening]
  calc trim (unlines (blanks ++ opening :: body ++ closing :: rest))
    _ = trimEnd (trimStart (unlines (opening :: (body ++ closing :: rest)))) := by
      rw [trim, List.append_assoc, List.cons_append, trimStart_unlines_blanks hblanks (List.cons_ne_nil _ _)]
    _ = trimEnd (unlines (trimStart opening :: body) ++ ['\n'] ++ unlines (closing :: rest)) := by
      rw [hhead, ← List.cons_append, unlines_append (List.cons_ne_nil _ _) (List.cons_ne_nil _ _), List.append_assoc]
      rfl
    _ = unlines (trimStart opening :: body ++ [trimEnd (unlines (closing :: rest))]) := by
      rw [trimEnd_append_of_some _ hlast, unlines_concat (List.cons_ne_nil _ _), List.append_assoc]
      rfl

end PatternCatalog.Text
