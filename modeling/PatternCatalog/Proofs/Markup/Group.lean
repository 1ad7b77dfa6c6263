/-
  PatternCatalog.Proofs.Markup.Group — what strings and brace groups are.

  The reader of a string takes a text in which its quote is escaped (`InQuotes`), up to the quote,
  for what the text stands for (`stringBody?_iff`). The reader of a brace group counts the groups
  that are open in it and remembers the quote of an open string. What it takes has a grammar that
  needs neither: a text in which every string and every group is closed (`Balanced`), up to the first
  brace that closes none of its own (`groupBody_iff`). Text without quotes and braces is balanced,
  and so is a string literal, whatever stands in it (`balanced_clear`, `balanced_written`).
-/

import PatternCatalog.Proofs.Markup.Scan

namespace PatternCatalog.Markup

/-- A text inside a string, in which the quote stands behind a backslash only. -/
inductive InQuotes (quote : Char) : List Char → Prop
  | nil : InQuotes quote []
  | escape (c : Char) {u : List Char} (hu : InQuotes quote u) : InQuotes quote ('\\' :: c :: u)
  | char {c : Char} {u : List Char} (hquote : c ≠ quote) (hback : c ≠ '\\') (hu : InQuotes quote u) : InQuotes quote (c :: u)

/-! ## Strings -/

/-- What a text inside a string stands for. -/
def literalText : List Char → List Char
  | '\\' :: c :: u => unescape c :: literalText u
  | c :: u => c :: literalText u
  | [] => []

theorem literalText_char {c : Char} (h : c ≠ '\\') (u : List Char) : literalText (c :: u) = c :: literalText u := by
  rw [literalText.eq_def]
  split <;> simp_all

theorem stringBody?_inQuotes {quote : Char} {u : List Char} (h : InQuotes quote u) (hquote : isQuote quote = true)
    (acc r : List Char) : stringBody? quote acc (u ++ quote :: r) = some (acc.reverse ++ literalText u, r) := by
  induction h generalizing acc with
  | nil =>
    have hback : quote ≠ '\\' := by rintro rfl; cases hquote
    simp [stringBody?, hback, literalText]
  | escape c _ ih =>
    rw [List.cons_append, List.cons_append, stringBody?, ih, literalText]
    simp
  | char hne hback _ ih =>
    rw [List.cons_append, stringBody?_plain hne hback, ih, literalText_char hback]
    simp

/-- A string is a text in which its quote is escaped, up to the quote. -/
theorem stringBody?_iff {quote : Char} (hquote : isQuote quote = true) {acc s v r : List Char} :
    stringBody? quote acc s = some (v, r) ↔
      ∃ u, InQuotes quote u ∧ s = u ++ quote :: r ∧ v = acc.reverse ++ literalText u := by
  constructor
  · intro h
    fun_induction stringBody? quote acc s with
    | case1 acc c r₁ ih =>
      obtain ⟨u, hu, rfl, rfl⟩ := ih h
      exact ⟨'\\' :: c :: u, .escape c hu, rfl, by simp [literalText]⟩
    | case2 => cases h
    | case3 acc r₁ _ hback =>
      obtain ⟨rfl, rfl⟩ := Prod.mk.inj (Option.some.inj h)
      exact ⟨[], .nil, rfl, by simp [literalText]⟩
    | case4 acc c r₁ _ hback hne ih =>
      obtain ⟨u, hu, rfl, rfl⟩ := ih h
      exact ⟨c :: u, .char hne hback hu, rfl, by simp [literalText_char hback]⟩
    | case5 => cases h
  · rintro ⟨u, hu, rfl, rfl⟩
    exact stringBody?_inQuotes hu hquote acc r

/-- A string literal in its quotes. -/
theorem stringLiteral_iff {s r : List Char} {value : String} : stringLiteral s = .ok (value, r) ↔
    ∃ quote u, isQuote quote = true ∧ InQuotes quote u ∧ s = quote :: (u ++ quote :: r) ∧
      value = String.ofList (literalText u) := by
  constructor
  · intro h
    unfold stringLiteral at h
    split at h
    · next c t =>
      split at h
      · next hquote =>
        split at h
        · next v rest hbody =>
          obtain ⟨rfl, rfl⟩ := Prod.mk.inj (Except.ok.inj h)
          obtain ⟨u, hu, rfl, rfl⟩ := (stringBody?_iff hquote).mp hbody
          exact ⟨c, u, hquote, hu, rfl, rfl⟩
        · cases h
      · cases h
    · cases h
  · rintro ⟨quote, u, hquote, hu, rfl, rfl⟩
    simp [stringLiteral, hquote, stringBody?_inQuotes hu hquote]

/-! ## Brace groups -/

/-- Whether a character is nothing to a brace group outside a string. -/
def IsClear (c : Char) : Prop := isQuote c = false ∧ c ≠ '\x7b' ∧ c ≠ '\x7d'
  deriving Decidable

/-- A text in which every string and every brace group is closed. -/
inductive Balanced : List Char → Prop
  | nil : Balanced []
  | char {c : Char} {u : List Char} (hc : IsClear c) (hu : Balanced u) : Balanced (c :: u)
  | string {quote : Char} {v u : List Char} (hquote : isQuote quote = true) (hv : InQuotes quote v) (hu : Balanced u) :
      Balanced (quote :: (v ++ quote :: u))
  | group {v u : List Char} (hv : Balanced v) (hu : Balanced u) : Balanced ('\x7b' :: (v ++ '\x7d' :: u))

theorem Balanced.append {v u : List Char} (hv : Balanced v) (hu : Balanced u) : Balanced (v ++ u) := by
  induction hv with
  | nil => exact hu
  | char hc _ ih => exact .char hc ih
  | string hquote hv' _ ih =>
    rw [List.cons_append, List.append_assoc]
    exact .string hquote hv' ih
  | group hv' _ _ ih =>
    rw [List.cons_append, List.append_assoc]
    exact .group hv' ih

theorem balanced_clear {s : List Char} (h : ∀ c ∈ s, IsClear c) : Balanced s := by
  induction s with
  | nil => exact .nil
  | cons c s ih => exact .char (h c List.mem_cons_self) (ih fun d hd => h d (List.mem_cons_of_mem _ hd))

theorem InQuotes.append {quote : Char} {v u : List Char} (hv : InQuotes quote v) (hu : InQuotes quote u) :
    InQuotes quote (v ++ u) := by
  induction hv with
  | nil => exact hu
  | escape c _ ih => exact .escape c ih
  | char hquote hback _ ih => exact .char hquote hback ih

theorem inQuotes_plain {quote : Char} {s : List Char} (h : ∀ c ∈ s, c ≠ quote ∧ c ≠ '\\') : InQuotes quote s := by
  induction s with
  | nil => exact .nil
  | cons c s ih =>
    obtain ⟨hquote, hback⟩ := h c List.mem_cons_self
    exact .char hquote hback (ih fun d hd => h d (List.mem_cons_of_mem _ hd))

theorem Escaped.inQuotes {c : Char} {w : List Char} (h : Escaped c w) : InQuotes '"' w := by
  cases h with
  | plain hquote hback => exact .char hquote hback .nil
  | behind d hr => exact .escape d (inQuotes_plain hr)

/-- A string literal is balanced, as its characters are written. -/
theorem balanced_written {w : Char → List Char} (hw : ∀ c, Escaped c (w c)) (s : List Char) :
    Balanced ('"' :: s.flatMap w ++ ['"']) := by
  have hbody : InQuotes '"' (s.flatMap w) := by
    induction s with
    | nil => exact .nil
    | cons c s ih => exact (hw c).inQuotes.append ih
  exact .string (by decide) hbody .nil

/-! ## The reader takes balanced texts -/

section
variable (depth : Nat) (acc r : List Char)

theorem groupBody_clear {c : Char} (h : IsClear c) : groupBody depth none acc (c :: r) = groupBody depth none (c :: acc) r := by
  rw [groupBody.eq_def]
  simp [h.1, h.2.1, h.2.2]

theorem groupBody_quote {quote : Char} (h : isQuote quote = true) :
    groupBody depth none acc (quote :: r) = groupBody depth (some quote) (quote :: acc) r := by
  rw [groupBody.eq_def]
  simp [h]

theorem groupBody_open : groupBody depth none acc ('\x7b' :: r) = groupBody (depth + 1) none ('\x7b' :: acc) r := by
  simp [groupBody, isQuote]

theorem groupBody_level : groupBody (depth + 1) none acc ('\x7d' :: r) = groupBody depth none ('\x7d' :: acc) r := by
  simp [groupBody, isQuote]

theorem groupBody_close : groupBody 0 none acc ('\x7d' :: r) = .ok (acc.reverse, r) := by
  simp [groupBody, isQuote]

end

theorem groupBody_inQuotes {quote : Char} {v : List Char} (h : InQuotes quote v) (hquote : isQuote quote = true) (depth : Nat)
    (acc r : List Char) :
    groupBody depth (some quote) acc (v ++ quote :: r) = groupBody depth none (quote :: (v.reverse ++ acc)) r := by
  induction h generalizing acc with
  | nil =>
    have hback : quote ≠ '\\' := by rintro rfl; cases hquote
    rw [List.nil_append, groupBody.eq_def]
    simp [hback]
  | escape c _ ih =>
    rw [List.cons_append, List.cons_append, groupBody.eq_def]
    simp [ih]
  | char hne hback _ ih =>
    rw [List.cons_append, groupBody.eq_def]
    simp [hback, hne, ih]

/-- Balanced text is gone through at any depth. -/
theorem groupBody_balanced {u : List Char} (h : Balanced u) (depth : Nat) (acc r : List Char) :
    groupBody depth none acc (u ++ r) = groupBody depth none (u.reverse ++ acc) r := by
  induction h generalizing depth acc r with
  | nil => rfl
  | char hc _ ih =>
    rw [List.cons_append, groupBody_clear _ _ _ hc, ih]
    simp
  | string hquote hv _ ih =>
    rw [List.cons_append, List.append_assoc, List.cons_append, groupBody_quote _ _ _ hquote, groupBody_inQuotes hv hquote, ih]
    simp
  | group _ _ ihv ihu =>
    rw [List.cons_append, List.append_assoc, List.cons_append, groupBody_open, ihv, groupBody_level, ihu]
    simp

/-! ## The reader takes nothing else -/

/-- A text that closes the open groups and one more, and the rest of it. -/
inductive Closes : Nat → List Char → List Char → Prop
  | last {u : List Char} (hu : Balanced u) (r : List Char) : Closes 0 (u ++ '\x7d' :: r) r
  | level {depth : Nat} {u s r : List Char} (hu : Balanced u) (h : Closes depth s r) : Closes (depth + 1) (u ++ '\x7d' :: s) r

theorem Closes.prepend {depth : Nat} {s r w : List Char} (h : Closes depth s r) (hw : ∀ u, Balanced u → Balanced (w ++ u)) :
    Closes depth (w ++ s) r := by
  cases h with
  | last hu => rw [← List.append_assoc]; exact .last (hw _ hu) r
  | level hu h => rw [← List.append_assoc]; exact .level (hw _ hu) h

/-- The same from the middle of a string. -/
def ClosesFrom (depth : Nat) : Option Char → List Char → List Char → Prop
  | none, s, r => Closes depth s r
  | some quote, s, r => ∃ v s', InQuotes quote v ∧ s = v ++ quote :: s' ∧ Closes depth s' r

theorem closes_of_groupBody {depth : Nat} {quote : Option Char} {acc s g r : List Char}
    (h : groupBody depth quote acc s = .ok (g, r)) : ClosesFrom depth quote s r := by
  fun_induction groupBody depth quote acc s with
  | case1 => cases h
  | case2 depth acc q d r₁ ih =>
    obtain ⟨v, s', hv, rfl, hclose⟩ := ih h
    exact ⟨'\\' :: d :: v, s', .escape d hv, rfl, hclose⟩
  | case3 => cases h
  | case4 depth acc c r₁ q hback ih =>
    by_cases hc : c = q
    · rw [if_pos hc] at h ih
      exact ⟨[], r₁, .nil, by rw [hc]; rfl, ih h⟩
    · rw [if_neg hc] at h ih
      obtain ⟨v, s', hv, rfl, hclose⟩ := ih h
      exact ⟨c :: v, s', .char hc hback hv, rfl, hclose⟩
  | case5 depth acc c r₁ hquote ih =>
    obtain ⟨v, s', hv, rfl, hclose⟩ := ih h
    have hprepend : ∀ u, Balanced u → Balanced (c :: (v ++ [c]) ++ u) := fun u hu => by simpa using Balanced.string hquote hv hu
    simpa [ClosesFrom] using hclose.prepend hprepend
  | case6 depth acc r₁ hquote ih =>
    cases ih h with
    | level hu hclose =>
      rename_i u s'
      have hprepend : ∀ v, Balanced v → Balanced ('\x7b' :: (u ++ ['\x7d']) ++ v) := fun v hv => by simpa using Balanced.group hu hv
      simpa [ClosesFrom] using hclose.prepend hprepend
  | case7 acc r₁ hquote =>
    obtain ⟨-, rfl⟩ := Prod.mk.inj (Except.ok.inj h)
    exact .last .nil r₁
  | case8 acc r₁ depth hquote hopen ih => exact .level .nil (ih h)
  | case9 depth acc c r₁ hquote hopen hclose ih =>
    have hclear : IsClear c := ⟨Bool.eq_false_iff.mpr hquote, hopen, hclose⟩
    have hprepend : ∀ u, Balanced u → Balanced ([c] ++ u) := fun u hu => .char hclear hu
    exact (ih h).prepend hprepend

/-- A brace group is a balanced text up to a closing brace. -/
theorem groupBody_iff {s g r : List Char} : groupBody 0 none [] s = .ok (g, r) ↔ Balanced g ∧ s = g ++ '\x7d' :: r := by
  have hread : ∀ {u}, Balanced u → ∀ r, groupBody 0 none [] (u ++ '\x7d' :: r) = .ok (u, r) := fun hu r => by
    rw [groupBody_balanced hu, groupBody_close, List.append_nil, List.reverse_reverse]
  constructor
  · intro h
    cases closes_of_groupBody h with
    | last hu =>
      rw [hread hu] at h
      obtain ⟨rfl, -⟩ := Prod.mk.inj (Except.ok.inj h)
      exact ⟨hu, rfl⟩
  · rintro ⟨hg, rfl⟩
    exact hread hg r

end PatternCatalog.Markup
