/-
  PatternCatalog.Proofs.Markup.Token — words, marks and string literals.

  Imports are written in tokens with blanks and comments between them. A text spells a list of tokens
  up to what follows it (`Spelled`); texts are spelled piece by piece (`Spells.append`), and each
  scanner takes a token (`spelled_identifier`, `spelled_mark`, `spelled_literal`). What a text
  spells is determined by it, as far as it goes (`Spelled.comparable`).
-/

import PatternCatalog.Proofs.Markup.Reads

namespace PatternCatalog.Markup

open Text

inductive Token where
  | word (name : String)
  | mark (c : Char)
  | literal (quote : Char) (value : String)
  deriving DecidableEq, Repr

/-- Whether a character is a mark of the syntax of imports. -/
def isImportMark (c : Char) : Bool := c == ',' || c == ';' || c == '*' || c == '\x7b' || c == '\x7d'

/-- A text starts with a token. A word ends where a name does, a string literal where its quote
stands unescaped. -/
inductive Starts : Token → List Char → List Char → Prop
  | word {name : String} {r : List Char} (hname : isName name = true) (hr : Ends isNamePart r) :
      Starts (.word name) (name.toList ++ r) r
  | mark {c : Char} {r : List Char} (hc : isImportMark c = true) : Starts (.mark c) (c :: r) r
  | literal {quote : Char} {u r : List Char} (hquote : isQuote quote = true) (hu : InQuotes quote u) :
      Starts (.literal quote (String.ofList (literalText u))) (quote :: (u ++ quote :: r)) r

/-- A text starts with tokens, and blanks and comments before each. -/
inductive Spelled : List Token → List Char → List Char → Prop
  | nil (r : List Char) : Spelled [] r r
  | cons {t : Token} {ts : List Token} {u s s' r : List Char} (hu : Trivia u) (ht : Starts t s s') (hs : Spelled ts s' r) :
      Spelled (t :: ts) (u ++ s) r

/-! ## Spelling piece by piece -/

theorem Trivia.append {u v : List Char} (hu : Trivia u) (hv : Trivia v) : Trivia (u ++ v) := by
  induction hu with
  | nil => exact hv
  | blank hc _ ih => exact .blank hc ih
  | line hbody _ ih =>
    simp only [List.cons_append, List.append_assoc]
    exact .line hbody ih
  | block hbody _ ih =>
    simp only [List.cons_append, List.append_assoc]
    exact .block hbody ih

/-- Blanks and comments may stand before tokens. -/
theorem Spelled.trivia {ts : List Token} {u s r : List Char} (h : Spelled ts s r) (hts : ts ≠ []) (hu : Trivia u) :
    Spelled ts (u ++ s) r := by
  cases h with
  | nil => exact absurd rfl hts
  | cons hv ht hs =>
    rw [← List.append_assoc]
    exact .cons (hu.append hv) ht hs

theorem Starts.ne_nil {t : Token} {s r : List Char} (h : Starts t s r) : s ≠ [] := by
  cases h with
  | word hname =>
    obtain ⟨c, cs, hc, -⟩ := isName_cons hname
    simp [hc]
  | mark => exact List.cons_ne_nil _ _
  | literal => exact List.cons_ne_nil _ _

theorem Spelled.skipTrivia {ts : List Token} {s r : List Char} (h : Spelled ts (skipTrivia s) r) (hts : ts ≠ []) :
    Spelled ts s r := by
  have hne : Markup.skipTrivia s ≠ [] := by
    generalize Markup.skipTrivia s = x at h
    cases h with
    | nil => exact absurd rfl hts
    | cons hu ht hs => exact fun hnil => ht.ne_nil (List.append_eq_nil_iff.mp hnil).2
  obtain ⟨u, hu, hs⟩ := exists_trivia rfl hne
  rw [hs]
  exact h.trivia hts hu

/-- A text spells tokens up to a rest, whatever tokens come next. -/
def Spells (ts : List Token) (s r : List Char) : Prop :=
  ∀ us x, us ≠ [] → Spelled us r x → Spelled (ts ++ us) s x

theorem Spells.append {ts us : List Token} {s r x : List Char} (h : Spells ts s r) (h' : Spells us r x) :
    Spells (ts ++ us) s x := by
  intro vs y hvs hy
  rw [List.append_assoc]
  exact h _ _ (List.append_ne_nil_of_right_ne_nil us hvs) (h' vs y hvs hy)

theorem spells_skipTrivia (s : List Char) : Spells [] s (skipTrivia s) := fun _ _ hus h => h.skipTrivia hus

theorem Spells.skipTrivia {ts : List Token} {s r : List Char} (h : Spells ts (skipTrivia s) r) : Spells ts s r :=
  (spells_skipTrivia s).append h

theorem Spelled.append {ts us : List Token} {s r x : List Char} (h : Spelled ts s r) (h' : Spelled us r x) :
    Spelled (ts ++ us) s x := by
  induction h with
  | nil => exact h'
  | cons hu ht _ ih => exact .cons hu ht (ih h')

theorem Spelled.spells {ts : List Token} {s r : List Char} (h : Spelled ts s r) : Spells ts s r := fun _ _ _ => h.append

theorem Starts.spelled {t : Token} {u s r : List Char} (h : Starts t s r) (hu : Trivia u) : Spelled [t] (u ++ s) r :=
  .cons hu h (.nil r)

theorem spelled_identifier {s r : List Char} {w : String} (h : identifier s = .ok (w, r)) : Spelled [.word w] s r := by
  obtain ⟨u, hu, hw, hr, rfl⟩ := identifier_ok h
  exact (Starts.word hw hr).spelled hu

theorem spelled_keyword {word : String} {s r : List Char} (hword : isName word = true) (h : eatKeyword? word s = some r) :
    Spelled [.word word] s r := by
  obtain ⟨u, hu, hr, rfl⟩ := eatKeyword?_some hword h
  exact (Starts.word hword hr).spelled hu

theorem spelled_mark {mark : String} {c : Char} (hmark : mark.toList = [c]) (hc : isImportMark c = true) {s r : List Char}
    (h : eat? mark s = some r) : Spelled [.mark c] s r := by
  rw [eat?_eq_some h, hmark]
  exact (Starts.mark hc).spelled .nil

theorem spelled_expect {mark what : String} {c : Char} (hmark : mark.toList = [c]) (hc : isImportMark c = true) {s r : List Char}
    (h : expect mark what s = .ok ((), r)) : Spelled [.mark c] s r := by
  unfold expect at h
  dsimp only at h
  split at h
  · next heat =>
    obtain ⟨-, rfl⟩ := Prod.mk.inj (Except.ok.inj h)
    exact (spelled_mark hmark hc heat).skipTrivia (List.cons_ne_nil _ _)
  · cases h

theorem spelled_literal {s r : List Char} {value : String} (h : stringLiteral s = .ok (value, r)) :
    ∃ quote, s.head? = some quote ∧ Spelled [.literal quote value] s r := by
  obtain ⟨quote, u, hquote, hu, rfl, rfl⟩ := stringLiteral_iff.mp h
  exact ⟨quote, rfl, (Starts.literal hquote hu).spelled .nil⟩

/-! ## A text spells one list of tokens -/

theorem isImportMark_cases {p : Char → Bool} (h : [',', ';', '*', '\x7b', '\x7d'].all p = true) {c : Char}
    (hc : isImportMark c = true) : p c = true := by
  simp only [isImportMark, Bool.or_eq_true, beq_iff_eq] at hc
  simp only [List.all_cons, List.all_nil, Bool.and_eq_true] at h
  rcases hc with (((rfl | rfl) | rfl) | rfl) | rfl
  · exact h.1
  · exact h.2.1
  · exact h.2.2.1
  · exact h.2.2.2.1
  · exact h.2.2.2.2.1

theorem isQuote_cases {p : Char → Bool} (h : ['"', '\'', '\x60'].all p = true) {c : Char} (hc : isQuote c = true) :
    p c = true := by
  simp only [isQuote, Bool.or_eq_true, beq_iff_eq] at hc
  simp only [List.all_cons, List.all_nil, Bool.and_eq_true] at h
  rcases hc with (rfl | rfl) | rfl
  · exact h.1
  · exact h.2.1
  · exact h.2.2.1

/-- Nothing of a token is skipped. -/
theorem Starts.skipTrivia {t : Token} {s r : List Char} (h : Starts t s r) : skipTrivia s = s := by
  cases h with
  | word hname => exact skipTrivia_name hname _
  | mark hc =>
    have hblank := isImportMark_cases (p := fun c => !isBlank c) (by decide) hc
    exact skipTrivia_here _ (by simpa using hblank) (ne_of_class hc (by decide))
  | literal hquote =>
    have hblank := isQuote_cases (p := fun c => !isBlank c) (by decide) hquote
    exact skipTrivia_here _ (by simpa using hblank) (ne_of_class hquote (by decide))

/-- The kind of a token, as its first character tells it. -/
def Token.kind : Token → Bool × Bool
  | .word _ => (true, false)
  | .mark _ => (false, true)
  | .literal _ _ => (false, false)

theorem Starts.kind {t : Token} {s r : List Char} (h : Starts t s r) :
    s.head?.map (fun c => (isNamePart c, isImportMark c)) = some t.kind := by
  have hmark : ∀ {c}, isImportMark c = true → isNamePart c = false := fun hc => by
    simpa using isImportMark_cases (p := fun c => !isNamePart c) (by decide) hc
  cases h with
  | word hname =>
    obtain ⟨c, cs, hc, hstart, -⟩ := isName_cons hname
    have hpart := isNamePart_of_isNameStart hstart
    have hother : isImportMark c = false := Bool.eq_false_iff.mpr fun hm => by
      rw [hmark hm] at hpart
      cases hpart
    simp [hc, hpart, hother, Token.kind]
  | mark hc => simp [hc, hmark hc, Token.kind]
  | literal hquote =>
    have hplain := isQuote_cases (p := fun c => !isNamePart c && !isImportMark c) (by decide) hquote
    simp only [Bool.and_eq_true, Bool.not_eq_true'] at hplain
    simp [hplain.1, hplain.2, Token.kind]

/-- What the scanners make of a text that starts with a token. -/
def Token.Read (s r : List Char) : Token → Prop
  | .word name => identifier s = .ok (name, r)
  | .mark c => s = c :: r
  | .literal quote value => stringLiteral s = .ok (value, r) ∧ s.head? = some quote

theorem Starts.read {t : Token} {s r : List Char} (h : Starts t s r) : t.Read s r := by
  cases h with
  | word hname hr => exact identifier_name hname hr
  | mark => rfl
  | literal hquote hu => exact ⟨stringLiteral_iff.mpr ⟨_, _, hquote, hu, rfl, rfl⟩, rfl⟩

theorem Starts.unique {t t' : Token} {s r r' : List Char} (h : Starts t s r) (h' : Starts t' s r') : t = t' ∧ r = r' := by
  have hkind : t.kind = t'.kind := Option.some.inj (h.kind.symm.trans h'.kind)
  have hread := h.read
  have hread' := h'.read
  match t, t', hkind with
  | .word _, .word _, _ =>
    obtain ⟨rfl, rfl⟩ := Prod.mk.inj (Except.ok.inj (Eq.trans (Eq.symm hread) hread'))
    exact ⟨rfl, rfl⟩
  | .mark _, .mark _, _ =>
    obtain ⟨rfl, rfl⟩ := List.cons.inj (Eq.trans (Eq.symm hread) hread')
    exact ⟨rfl, rfl⟩
  | .literal _ _, .literal _ _, _ =>
    obtain ⟨rfl, rfl⟩ := Prod.mk.inj (Except.ok.inj (hread.1.symm.trans hread'.1))
    obtain rfl := Option.some.inj (hread.2.symm.trans hread'.2)
    exact ⟨rfl, rfl⟩

/-- Of two spellings of one text one goes further. -/
theorem Spelled.comparable {ts ts' : List Token} {s r r' : List Char} (h : Spelled ts s r) (h' : Spelled ts' s r') :
    ts <+: ts' ∨ ts' <+: ts := by
  induction h generalizing ts' with
  | nil => exact .inl (List.nil_prefix)
  | @cons t ts u s s' r hu ht _ ih =>
    generalize hs : u ++ s = x at h'
    cases h' with
    | nil => exact .inr (List.nil_prefix)
    | @cons t' ts' u' s₁ s₁' _ hu' ht' hs' =>
      have hsame : s = s₁ := by
        rw [← ht.skipTrivia, ← ht'.skipTrivia, ← skipTrivia_append hu s, ← skipTrivia_append hu' s₁, hs]
      subst hsame
      obtain ⟨rfl, rfl⟩ := ht.unique ht'
      exact (ih hs').imp (List.prefix_cons_inj t).mpr (List.prefix_cons_inj t).mpr

end PatternCatalog.Markup
