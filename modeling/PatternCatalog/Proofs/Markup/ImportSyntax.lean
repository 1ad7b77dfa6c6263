/-
  PatternCatalog.Proofs.Markup.ImportSyntax — which imports are accepted.

  An import is a source, or names to take from one (`ImportDeclaration`). The reader takes the comma
  after a default name and the clause after it each on its own, and a source in any quotes; the
  syntax of imports has the comma exactly where a clause follows, and quotes that are no backticks
  (`ImportDeclaration.Proper`).
  - `imports_spells`: what the reader takes is spelled by declarations, and their bindings are its
    imports, in order.
  - `declares_unique`: a text spells no other declarations.
  - `imports_proper_iff`: so an accepted example has imports of the syntax exactly when no comma is
    missing or too many, and no source stands in backticks.

  A clause without its comma is accepted (`a_clause_without_its_comma_is_accepted`).
-/

import PatternCatalog.Proofs.Markup.Header
import PatternCatalog.Proofs.Markup.Token

namespace PatternCatalog.Markup

/-! ## Declarations -/

/-- A name of a list, `n` or `n as m`. -/
structure ImportName where
  imported : String
  renamed : Option String
  deriving DecidableEq, Repr

/-- The names of a list; after the last one a comma may stand. -/
inductive ImportNames where
  | none
  | last (name : ImportName)
  | more (name : ImportName) (others : ImportNames)
  deriving DecidableEq, Repr

inductive ImportClause where
  | list (names : ImportNames)
  | star (name : String)
  deriving DecidableEq, Repr

inductive ImportBindings where
  | clause (c : ImportClause)
  | default_ (name : String) (comma : Bool) (c : Option ImportClause)
  deriving DecidableEq, Repr

inductive ImportDeclaration where
  | bare (quote : Char) (source : String) (semicolon : Bool)
  | taking (bindings : ImportBindings) (quote : Char) (source : String) (semicolon : Bool)
  deriving DecidableEq, Repr

def ImportName.tokens : ImportName → List Token
  | ⟨imported, none⟩ => [.word imported]
  | ⟨imported, some name⟩ => [.word imported, .word "as", .word name]

def ImportNames.tokens : ImportNames → List Token
  | .none => [.mark '\x7d']
  | .last name => name.tokens ++ [.mark '\x7d']
  | .more name others => name.tokens ++ .mark ',' :: others.tokens

def ImportClause.tokens : ImportClause → List Token
  | .list names => .mark '\x7b' :: names.tokens
  | .star name => [.mark '*', .word "as", .word name]

/-- A mark that may be left out. -/
def optionalMark (c : Char) (present : Bool) : List Token := if present then [.mark c] else []

def ImportBindings.tokens : ImportBindings → List Token
  | .clause c => c.tokens
  | .default_ name comma c => .word name :: (optionalMark ',' comma ++ c.elim [] ImportClause.tokens)

def ImportDeclaration.tokens : ImportDeclaration → List Token
  | .bare quote source semicolon => .word "import" :: .literal quote source :: optionalMark ';' semicolon
  | .taking bindings quote source semicolon =>
    .word "import" :: (bindings.tokens ++ .word "from" :: .literal quote source :: optionalMark ';' semicolon)

def ImportName.binding (n : ImportName) : String × Imported := (n.renamed.getD n.imported, .ofName n.imported)

def ImportNames.bindings : ImportNames → List (String × Imported)
  | .none => []
  | .last name => [name.binding]
  | .more name others => name.binding :: others.bindings

def ImportClause.bindings : ImportClause → List (String × Imported)
  | .list names => names.bindings
  | .star name => [(name, .namespace_)]

def ImportBindings.bindings : ImportBindings → List (String × Imported)
  | .clause c => c.bindings
  | .default_ name _ c => (name, .default_) :: c.elim [] ImportClause.bindings

/-- The imports that a declaration makes. -/
def ImportDeclaration.imports : ImportDeclaration → List Import
  | .bare _ _ _ => []
  | .taking bindings _ source _ => bindings.bindings.map fun (name, imported) => ⟨name, source, imported⟩

/-- The forms of the syntax: the source in double or single quotes, and a default name followed by a
comma exactly where a clause follows. -/
inductive ImportDeclaration.Proper : ImportDeclaration → Prop
  | bare {quote : Char} {source : String} {semicolon : Bool} (hquote : quote = '"' ∨ quote = '\'') :
      Proper (.bare quote source semicolon)
  | clause {c : ImportClause} {quote : Char} {source : String} {semicolon : Bool} (hquote : quote = '"' ∨ quote = '\'') :
      Proper (.taking (.clause c) quote source semicolon)
  | default_ {name : String} {quote : Char} {source : String} {semicolon : Bool} (hquote : quote = '"' ∨ quote = '\'') :
      Proper (.taking (.default_ name false none) quote source semicolon)
  | both {name : String} {c : ImportClause} {quote : Char} {source : String} {semicolon : Bool}
      (hquote : quote = '"' ∨ quote = '\'') : Proper (.taking (.default_ name true (some c)) quote source semicolon)

/-- The text of an example spells declarations, and its default export after them. -/
def Declares (ds : List ImportDeclaration) (source : String) : Prop :=
  ∃ r, Spelled (ds.flatMap ImportDeclaration.tokens ++ [.word "export", .word "default"]) source.toList r

/-! ## What the reader takes -/

theorem specifier_spells {s r : List Char} {b : String × Imported} (h : specifier s = .ok (b, r)) :
    ∃ n : ImportName, Spells n.tokens s r ∧ b = n.binding := by
  obtain ⟨⟨imported, s₁⟩, himported, hrest⟩ := Except.bind_ok h
  have hfirst := (spelled_identifier himported).spells
  dsimp only at hrest
  split at hrest
  · next s₂ has =>
    obtain ⟨⟨name, s₃⟩, hname, hlast⟩ := Except.bind_ok hrest
    obtain ⟨rfl, rfl⟩ := Prod.mk.inj (Except.ok.inj hlast)
    have hrenamed := ((spelled_keyword (by decide) has).append (spelled_identifier hname)).spells
    exact ⟨⟨imported, some name⟩, (hfirst.append hrenamed).append (spells_skipTrivia s₃), rfl⟩
  · obtain ⟨rfl, rfl⟩ := Prod.mk.inj (Except.ok.inj hrest)
    exact ⟨⟨imported, none⟩, hfirst.append (spells_skipTrivia s₁), rfl⟩

theorem namedImports_spells {fuel : Nat} {s r : List Char} {bs : List (String × Imported)}
    (h : namedImports fuel s = .ok (bs, r)) : ∃ ns : ImportNames, Spells ns.tokens s r ∧ bs = ns.bindings := by
  induction fuel generalizing s bs with
  | zero => cases h
  | succ fuel ih =>
    rw [namedImports_succ] at h
    split at h
    · next s₁ hclose =>
      obtain ⟨rfl, rfl⟩ := Prod.mk.inj (Except.ok.inj h)
      exact ⟨.none, (spelled_mark (by decide) (by decide) hclose).spells.skipTrivia, rfl⟩
    · obtain ⟨⟨b, s₁⟩, hb, hrest⟩ := Except.bind_ok h
      obtain ⟨n, hn, rfl⟩ := specifier_spells hb
      dsimp only at hrest
      split at hrest
      · next s₂ hcomma =>
        obtain ⟨⟨others, s₃⟩, hothers, hlast⟩ := Except.bind_ok hrest
        obtain ⟨rfl, rfl⟩ := Prod.mk.inj (Except.ok.inj hlast)
        obtain ⟨ns, hns, rfl⟩ := ih hothers
        exact ⟨.more n ns, hn.append ((spelled_mark (by decide) (by decide) hcomma).spells.append hns), rfl⟩
      · obtain ⟨⟨_, s₂⟩, hclose, hlast⟩ := Except.bind_ok hrest
        obtain ⟨rfl, rfl⟩ := Prod.mk.inj (Except.ok.inj hlast)
        exact ⟨.last n, hn.append (spelled_expect (by decide) (by decide) hclose).spells, rfl⟩

theorem namespaceImport_spells {s r : List Char} {bs : List (String × Imported)} (h : namespaceImport s = .ok (bs, r)) :
    ∃ name, Spells [.word "as", .word name] s r ∧ bs = [(name, .namespace_)] := by
  obtain ⟨⟨_, s₁⟩, has, hrest⟩ := Except.bind_ok h
  obtain ⟨⟨name, s₂⟩, hname, hlast⟩ := Except.bind_ok hrest
  obtain ⟨rfl, rfl⟩ := Prod.mk.inj (Except.ok.inj hlast)
  exact ⟨name, ((spelled_keyword (by decide) (expectKeyword_ok has)).append (spelled_identifier hname)).spells, rfl⟩

/-- A clause is taken where one starts, and nothing elsewhere. -/
theorem bindingGroup_spells {s r : List Char} {bs : List (String × Imported)} (h : bindingGroup s = .ok (bs, r)) :
    ∃ clause : Option ImportClause, Spells (clause.elim [] ImportClause.tokens) s r ∧
      bs = clause.elim [] ImportClause.bindings ∧ (s.head? = some '\x7b' → clause.isSome = true) := by
  unfold bindingGroup at h
  split at h
  · next s₁ hbrace =>
    obtain ⟨ns, hns, rfl⟩ := namedImports_spells h
    exact ⟨some (.list ns), (spelled_mark (by decide) (by decide) hbrace).spells.append hns, rfl, fun _ => rfl⟩
  split at h
  · next s₁ hstar =>
    obtain ⟨name, hname, rfl⟩ := namespaceImport_spells h
    exact ⟨some (.star name), (spelled_mark (by decide) (by decide) hstar).spells.append hname, rfl, fun _ => rfl⟩
  · next _ hbrace _ _ =>
    obtain ⟨rfl, rfl⟩ := Prod.mk.inj (Except.ok.inj h)
    exact ⟨none, fun _ _ _ hs => hs, rfl, fun hhead => absurd hhead (head?_ne_of_eat? (by decide) hbrace)⟩

theorem afterComma_spells (s : List Char) : ∃ comma, Spells (optionalMark ',' comma) s (afterComma (skipTrivia s)) := by
  unfold afterComma
  cases heat : eat? "," (skipTrivia s) with
  | some s₁ => exact ⟨true, (spelled_mark (by decide) (by decide) heat).spells.skipTrivia.append (spells_skipTrivia s₁)⟩
  | none => exact ⟨false, spells_skipTrivia s⟩

theorem importBindings_spells {s r : List Char} {bs : List (String × Imported)} (h : importBindings s = .ok (bs, r)) :
    ∃ b : ImportBindings, Spells b.tokens s r ∧ bs = b.bindings := by
  cases hstar : eat? "*" s with
  | some s₁ =>
    unfold importBindings at h
    rw [hstar] at h
    obtain ⟨name, hname, rfl⟩ := namespaceImport_spells h
    exact ⟨.clause (.star name), (spelled_mark (by decide) (by decide) hstar).spells.append hname, rfl⟩
  | none =>
    by_cases hbrace : s.head? = some '\x7b'
    · unfold importBindings at h
      simp only [hstar, hbrace, if_true] at h
      obtain ⟨clause, hclause, rfl, hsome⟩ := bindingGroup_spells h
      obtain ⟨c, rfl⟩ := Option.isSome_iff_exists.mp (hsome hbrace)
      exact ⟨.clause c, hclause, rfl⟩
    · rw [importBindings_of_name hstar hbrace] at h
      obtain ⟨⟨name, s₁⟩, hname, hrest⟩ := Except.bind_ok h
      obtain ⟨⟨others, s₂⟩, hothers, hlast⟩ := Except.bind_ok hrest
      obtain ⟨rfl, rfl⟩ := Prod.mk.inj (Except.ok.inj hlast)
      obtain ⟨comma, hcomma⟩ := afterComma_spells s₁
      obtain ⟨clause, hclause, rfl, -⟩ := bindingGroup_spells hothers
      exact ⟨.default_ name comma clause, (spelled_identifier hname).spells.append (hcomma.append hclause), rfl⟩

theorem semicolon_spells (s : List Char) : ∃ semicolon, Spells (optionalMark ';' semicolon) s (eatOptional ";" (skipTrivia s)) := by
  unfold eatOptional
  cases heat : eat? ";" (skipTrivia s) with
  | some r => exact ⟨true, (spelled_mark (by decide) (by decide) heat).spells.skipTrivia⟩
  | none => exact ⟨false, spells_skipTrivia s⟩

theorem importDeclaration_spells {s s₁ r : List Char} {is : List Import} (hword : eatKeyword? "import" s = some s₁)
    (h : importDeclaration s₁ = .ok (is, r)) : ∃ d : ImportDeclaration, Spells d.tokens s r ∧ is = d.imports := by
  have himport := (spelled_keyword (by decide) hword).spells
  unfold importDeclaration at h
  dsimp only at h
  split at h
  · obtain ⟨⟨source, s₂⟩, hsource, hlast⟩ := Except.bind_ok h
    obtain ⟨rfl, rfl⟩ := Prod.mk.inj (Except.ok.inj hlast)
    obtain ⟨quote, -, hliteral⟩ := spelled_literal hsource
    obtain ⟨semicolon, hsemicolon⟩ := semicolon_spells s₂
    exact ⟨.bare quote source semicolon, himport.append (hliteral.spells.skipTrivia.append hsemicolon), rfl⟩
  · obtain ⟨⟨bindings, s₂⟩, hbindings, hrest⟩ := Except.bind_ok h
    obtain ⟨⟨_, s₃⟩, hfrom, hrest'⟩ := Except.bind_ok hrest
    obtain ⟨⟨source, s₄⟩, hsource, hlast⟩ := Except.bind_ok hrest'
    obtain ⟨rfl, rfl⟩ := Prod.mk.inj (Except.ok.inj hlast)
    obtain ⟨b, hb, rfl⟩ := importBindings_spells hbindings
    obtain ⟨quote, -, hliteral⟩ := spelled_literal hsource
    obtain ⟨semicolon, hsemicolon⟩ := semicolon_spells s₄
    have hsourced := (spelled_keyword (by decide) (expectKeyword_ok hfrom)).spells.append (hliteral.spells.skipTrivia.append hsemicolon)
    exact ⟨.taking b quote source semicolon, himport.append (hb.skipTrivia.append hsourced), rfl⟩

theorem imports_spells {fuel : Nat} {s r : List Char} {is : List Import} (h : imports fuel s = .ok (is, r)) :
    ∃ ds : List ImportDeclaration, Spells (ds.flatMap ImportDeclaration.tokens) s r ∧
      is = ds.flatMap ImportDeclaration.imports := by
  induction fuel generalizing s is with
  | zero =>
    obtain ⟨rfl, rfl⟩ := Prod.mk.inj (Except.ok.inj h)
    exact ⟨[], fun _ _ _ hs => hs, rfl⟩
  | succ fuel ih =>
    rw [imports] at h
    split at h
    · next s₁ hword =>
      obtain ⟨⟨first, s₂⟩, hfirst, hrest⟩ := Except.bind_ok h
      obtain ⟨⟨others, s₃⟩, hothers, hlast⟩ := Except.bind_ok hrest
      obtain ⟨rfl, rfl⟩ := Prod.mk.inj (Except.ok.inj hlast)
      obtain ⟨d, hd, rfl⟩ := importDeclaration_spells hword hfirst
      obtain ⟨ds, hds, rfl⟩ := ih hothers
      exact ⟨d :: ds, hd.append hds, rfl⟩
    · obtain ⟨rfl, rfl⟩ := Prod.mk.inj (Except.ok.inj h)
      exact ⟨[], spells_skipTrivia s, rfl⟩

theorem declares_of_parse {source : String} {limit : Nat} {m : Module} (h : parse source limit = .ok m) :
    ∃ ds, Declares ds source ∧ m.imports = ds.flatMap ImportDeclaration.imports := by
  obtain ⟨hd, r, t, hheader, -, -, himports⟩ := module_ok (Except.mapError_ok h)
  obtain ⟨⟨is, s₁⟩, his, hrest⟩ := Except.bind_ok hheader
  obtain ⟨⟨_, s₂⟩, hexport, hrest'⟩ := Except.bind_ok hrest
  obtain ⟨⟨_, s₃⟩, hdefault, hlast⟩ := Except.bind_ok hrest'
  obtain ⟨⟨b, s₄⟩, -, hend⟩ := Except.bind_ok hlast
  obtain ⟨rfl, -⟩ := Prod.mk.inj (Except.ok.inj hend)
  obtain ⟨ds, hds, rfl⟩ := imports_spells his
  have hend := (spelled_keyword (by decide) (expectKeyword_ok hexport)).append
    (spelled_keyword (by decide) (expectKeyword_ok hdefault))
  exact ⟨ds, ⟨s₃, hds _ s₃ (List.cons_ne_nil _ _) hend⟩, himports⟩

/-! ## A text spells no other declarations -/

theorem ImportName.tokens_cons (n : ImportName) : ∃ ts, n.tokens = .word n.imported :: ts := by
  obtain ⟨imported, _ | name⟩ := n
  · exact ⟨_, rfl⟩
  · exact ⟨_, rfl⟩

/-- A name of a list ends at the mark after it. -/
theorem ImportName.tokens_inj {n n' : ImportName} {c c' : Char} {x x' : List Token}
    (h : n.tokens ++ .mark c :: x = n'.tokens ++ .mark c' :: x') : n = n' ∧ c = c' ∧ x = x' := by
  obtain ⟨imported, _ | name⟩ := n <;> obtain ⟨imported', _ | name'⟩ := n' <;>
    simp_all [ImportName.tokens]

theorem ImportNames.tokens_inj {ns ns' : ImportNames} {x x' : List Token} (h : ns.tokens ++ x = ns'.tokens ++ x') :
    ns = ns' ∧ x = x' := by
  induction ns generalizing ns' with
  | none =>
    cases ns' with
    | none => exact ⟨rfl, by simpa [ImportNames.tokens] using h⟩
    | last n' | more n' _ =>
      obtain ⟨ts, hts⟩ := n'.tokens_cons
      simp [ImportNames.tokens, hts] at h
  | last n =>
    cases ns' with
    | none =>
      obtain ⟨ts, hts⟩ := n.tokens_cons
      simp [ImportNames.tokens, hts] at h
    | last n' =>
      simp only [ImportNames.tokens, List.append_assoc, List.cons_append, List.nil_append] at h
      obtain ⟨rfl, -, rfl⟩ := ImportName.tokens_inj h
      exact ⟨rfl, rfl⟩
    | more n' ns' =>
      simp only [ImportNames.tokens, List.append_assoc, List.cons_append, List.nil_append] at h
      exact absurd (ImportName.tokens_inj h).2.1 (by decide)
  | more n ns ih =>
    cases ns' with
    | none =>
      obtain ⟨ts, hts⟩ := n.tokens_cons
      simp [ImportNames.tokens, hts] at h
    | last n' =>
      simp only [ImportNames.tokens, List.append_assoc, List.cons_append, List.nil_append] at h
      exact absurd (ImportName.tokens_inj h).2.1 (by decide)
    | more n' ns' =>
      simp only [ImportNames.tokens, List.append_assoc, List.cons_append] at h
      obtain ⟨rfl, -, hothers⟩ := ImportName.tokens_inj h
      obtain ⟨rfl, rfl⟩ := ih hothers
      exact ⟨rfl, rfl⟩

theorem ImportClause.tokens_inj {c c' : ImportClause} {x x' : List Token} (h : c.tokens ++ x = c'.tokens ++ x') :
    c = c' ∧ x = x' := by
  cases c with
  | list ns =>
    cases c' with
    | list ns' =>
      obtain ⟨rfl, rfl⟩ := ImportNames.tokens_inj (List.cons.inj h).2
      exact ⟨rfl, rfl⟩
    | star name' => simp [ImportClause.tokens] at h
  | star name =>
    cases c' with
    | list ns' => simp [ImportClause.tokens] at h
    | star name' => simpa [ImportClause.tokens] using h

/-- A clause starts with a mark. -/
theorem ImportClause.tokens_cons (c : ImportClause) : ∃ m ts, m ≠ ',' ∧ c.tokens = .mark m :: ts := by
  cases c with
  | list ns => exact ⟨'\x7b', _, by decide, rfl⟩
  | star name => exact ⟨'*', _, by decide, rfl⟩

theorem optionalClause_inj {c c' : Option ImportClause} {w : String} {x x' : List Token}
    (h : c.elim [] ImportClause.tokens ++ .word w :: x = c'.elim [] ImportClause.tokens ++ .word w :: x') :
    c = c' ∧ x = x' := by
  cases c with
  | none =>
    cases c' with
    | none => exact ⟨rfl, (List.cons.inj h).2⟩
    | some c' =>
      obtain ⟨m, ts, -, hts⟩ := c'.tokens_cons
      simp [hts] at h
  | some c =>
    cases c' with
    | none =>
      obtain ⟨m, ts, -, hts⟩ := c.tokens_cons
      simp [hts] at h
    | some c' =>
      obtain ⟨rfl, hx⟩ := ImportClause.tokens_inj h
      exact ⟨rfl, (List.cons.inj hx).2⟩

/-- Whether a mark stands is told where no other mark of its kind follows. -/
theorem optionalMark_inj {m : Char} {p p' : Bool} {x x' : List Token} (hx : x.head? ≠ some (.mark m))
    (hx' : x'.head? ≠ some (.mark m)) (h : optionalMark m p ++ x = optionalMark m p' ++ x') : p = p' ∧ x = x' := by
  cases p with
  | false =>
    cases p' with
    | false => exact ⟨rfl, h⟩
    | true => exact absurd (congrArg List.head? h) hx
  | true =>
    cases p' with
    | false => exact absurd (congrArg List.head? h).symm hx'
    | true => exact ⟨rfl, (List.cons.inj h).2⟩

theorem ImportBindings.tokens_inj {b b' : ImportBindings} {x x' : List Token}
    (h : b.tokens ++ .word "from" :: x = b'.tokens ++ .word "from" :: x') : b = b' ∧ x = x' := by
  have hcomma : ∀ (c : Option ImportClause) (y : List Token),
      (c.elim [] ImportClause.tokens ++ .word "from" :: y).head? ≠ some (.mark ',') := fun c y => by
    cases c with
    | none => simp
    | some c =>
      obtain ⟨m, ts, hm, hts⟩ := c.tokens_cons
      simpa [hts] using hm
  cases b with
  | clause c =>
    obtain ⟨m, ts, -, hts⟩ := c.tokens_cons
    cases b' with
    | clause c' =>
      obtain ⟨rfl, hx⟩ := ImportClause.tokens_inj h
      exact ⟨rfl, (List.cons.inj hx).2⟩
    | default_ name' comma' c' => simp [ImportBindings.tokens, hts] at h
  | default_ name comma c =>
    cases b' with
    | clause c' =>
      obtain ⟨m, ts, -, hts⟩ := c'.tokens_cons
      simp [ImportBindings.tokens, hts] at h
    | default_ name' comma' c' =>
      simp only [ImportBindings.tokens, List.cons_append, List.append_assoc, List.cons.injEq, Token.word.injEq] at h
      obtain ⟨rfl, htail⟩ := h
      obtain ⟨rfl, hclause⟩ := optionalMark_inj (hcomma c x) (hcomma c' x') htail
      obtain ⟨rfl, rfl⟩ := optionalClause_inj hclause
      exact ⟨rfl, rfl⟩

theorem ImportDeclaration.tokens_inj {d d' : ImportDeclaration} {x x' : List Token} (hx : x.head? ≠ some (.mark ';'))
    (hx' : x'.head? ≠ some (.mark ';')) (h : d.tokens ++ x = d'.tokens ++ x') : d = d' ∧ x = x' := by
  have hstart : ∀ b : ImportBindings, ∃ t ts, (∀ q v, t ≠ .literal q v) ∧ b.tokens = t :: ts := fun b => by
    cases b with
    | clause c =>
      obtain ⟨m, ts, -, hts⟩ := c.tokens_cons
      exact ⟨.mark m, ts, (fun _ _ h => nomatch h), hts⟩
    | default_ name comma c => exact ⟨.word name, _, (fun _ _ h => nomatch h), rfl⟩
  cases d with
  | bare quote source semicolon =>
    cases d' with
    | bare quote' source' semicolon' =>
      simp only [ImportDeclaration.tokens, List.cons_append, List.cons.injEq, Token.literal.injEq, true_and] at h
      obtain ⟨⟨rfl, rfl⟩, hend⟩ := h
      obtain ⟨rfl, rfl⟩ := optionalMark_inj hx hx' hend
      exact ⟨rfl, rfl⟩
    | taking bindings' quote' source' semicolon' =>
      obtain ⟨t, ts, hliteral, hts⟩ := hstart bindings'
      simp only [ImportDeclaration.tokens, hts, List.cons_append, List.cons.injEq, true_and] at h
      exact absurd h.1.symm (hliteral quote source)
  | taking bindings quote source semicolon =>
    cases d' with
    | bare quote' source' semicolon' =>
      obtain ⟨t, ts, hliteral, hts⟩ := hstart bindings
      simp only [ImportDeclaration.tokens, hts, List.cons_append, List.cons.injEq, true_and] at h
      exact absurd h.1 (hliteral quote' source')
    | taking bindings' quote' source' semicolon' =>
      simp only [ImportDeclaration.tokens, List.cons_append, List.append_assoc, List.cons.injEq, true_and] at h
      obtain ⟨rfl, hsource⟩ := ImportBindings.tokens_inj h
      simp only [List.cons.injEq, Token.literal.injEq] at hsource
      obtain ⟨⟨rfl, rfl⟩, hend⟩ := hsource
      obtain ⟨rfl, rfl⟩ := optionalMark_inj hx hx' hend
      exact ⟨rfl, rfl⟩

/-- The tokens of declarations with the default export after them, and anything more. -/
def declared (ds : List ImportDeclaration) (more : List Token) : List Token :=
  ds.flatMap ImportDeclaration.tokens ++ (.word "export" :: .word "default" :: more)

theorem declared_cons (d : ImportDeclaration) (ds : List ImportDeclaration) (more : List Token) :
    declared (d :: ds) more = d.tokens ++ declared ds more := by
  simp [declared]

theorem declared_head (ds : List ImportDeclaration) (more : List Token) :
    (declared ds more).head? = some (.word (if ds = [] then "export" else "import")) := by
  cases ds with
  | nil => rfl
  | cons d ds => cases d <;> rfl

theorem declared_inj {ds es : List ImportDeclaration} {more more' : List Token} (h : declared ds more = declared es more') :
    ds = es := by
  have hend : ∀ ds more, (declared ds more).head? ≠ some (.mark ';') := fun ds more => by
    rw [declared_head]
    simp
  induction ds generalizing es with
  | nil =>
    cases es with
    | nil => rfl
    | cons e es =>
      have hhead := congrArg List.head? h
      simp [declared_head] at hhead
  | cons d ds ih =>
    cases es with
    | nil =>
      have hhead := congrArg List.head? h
      simp [declared_head] at hhead
    | cons e es =>
      rw [declared_cons, declared_cons] at h
      obtain ⟨rfl, hrest⟩ := ImportDeclaration.tokens_inj (hend ds more) (hend es more') h
      rw [ih hrest]

theorem declares_unique {ds es : List ImportDeclaration} {source : String} (hds : Declares ds source) (hes : Declares es source) :
    ds = es := by
  obtain ⟨r, hr⟩ := hds
  obtain ⟨r', hr'⟩ := hes
  rcases hr.comparable hr' with ⟨more, h⟩ | ⟨more, h⟩
  · have hmore : declared ds more = declared es [] := by simpa [declared] using h
    exact declared_inj hmore
  · have hmore : declared es more = declared ds [] := by simpa [declared] using h
    exact (declared_inj hmore).symm

/-! ## Imports of the syntax -/

def ImportDeclaration.quote : ImportDeclaration → Char
  | .bare quote _ _ => quote
  | .taking _ quote _ _ => quote

/-- Whether a default name has a comma after it exactly where a clause follows. -/
def ImportDeclaration.commaFits : ImportDeclaration → Bool
  | .taking (.default_ _ comma c) _ _ _ => comma == c.isSome
  | _ => true

theorem ImportDeclaration.proper_iff {d : ImportDeclaration} :
    d.Proper ↔ (d.quote = '"' ∨ d.quote = '\'') ∧ d.commaFits = true := by
  constructor
  · intro h
    cases h with
    | bare hquote | clause hquote | default_ hquote | both hquote => exact ⟨hquote, rfl⟩
  · rintro ⟨hquote, hcomma⟩
    match d with
    | .bare _ _ _ => exact .bare hquote
    | .taking (.clause _) _ _ _ => exact .clause hquote
    | .taking (.default_ _ false none) _ _ _ => exact .default_ hquote
    | .taking (.default_ _ true (some _)) _ _ _ => exact .both hquote

/-- An accepted example has declarations of imports, whose bindings are its imports. They are of the
syntax exactly when no comma is missing or too many and no source stands in backticks. -/
theorem imports_proper_iff {source : String} {limit : Nat} {m : Module} (h : parse source limit = .ok m) :
    ∃ ds, Declares ds source ∧ m.imports = ds.flatMap ImportDeclaration.imports ∧
      ((∃ es, (∀ e ∈ es, e.Proper) ∧ Declares es source ∧ m.imports = es.flatMap ImportDeclaration.imports) ↔
        ∀ d ∈ ds, (d.quote = '"' ∨ d.quote = '\'') ∧ d.commaFits = true) := by
  obtain ⟨ds, hds, himports⟩ := declares_of_parse h
  simp only [← ImportDeclaration.proper_iff]
  refine ⟨ds, hds, himports, ?_, fun hproper => ⟨ds, hproper, hds, himports⟩⟩
  rintro ⟨es, hproper, hes, -⟩
  exact declares_unique hds hes ▸ hproper

/-- Both kinds of clause, a comma after the last name, and a comment. -/
def mixed : String := "import A, \x7b b as c, \x7d from \"./a\"; /* all */ import * as N from './n'\nexport default () => <A />"

theorem mixed_imports_proper_iff :
    parse mixed 1 =
        .ok ⟨[⟨"A", "./a", .default_⟩, ⟨"c", "./a", .named "b"⟩, ⟨"N", "./n", .namespace_⟩], ⟨["A"], [], []⟩⟩ ∧
      ∃ ds, Declares ds mixed ∧
        [⟨"A", "./a", .default_⟩, ⟨"c", "./a", .named "b"⟩, ⟨"N", "./n", .namespace_⟩] = ds.flatMap ImportDeclaration.imports ∧
        ((∃ es, (∀ e ∈ es, e.Proper) ∧ Declares es mixed ∧
            [⟨"A", "./a", .default_⟩, ⟨"c", "./a", .named "b"⟩, ⟨"N", "./n", .namespace_⟩] =
              es.flatMap ImportDeclaration.imports) ↔
          ∀ d ∈ ds, (d.quote = '"' ∨ d.quote = '\'') ∧ d.commaFits = true) := by
  have hheader : header mixed.toList = .ok (⟨[⟨"A", "./a", .default_⟩, ⟨"c", "./a", .named "b"⟩, ⟨"N", "./n", .namespace_⟩], false, 0⟩,
      ['<', 'A', ' ', '/', '>']) := by decide +kernel
  have hparse : parse mixed 1 = .ok ⟨[⟨"A", "./a", .default_⟩, ⟨"c", "./a", .named "b"⟩, ⟨"N", "./n", .namespace_⟩], ⟨["A"], [], []⟩⟩ :=
    parse_of_parts hheader rfl rfl
  exact ⟨hparse, imports_proper_iff hparse⟩

/-- `A` and a list of names are taken from one source with no comma between them. -/
def joined : String := "import A \x7b b \x7d from \"./a\";\nexport default () => <A />"

theorem joined_declares :
    Declares [.taking (.default_ "A" false (some (.list (.last ⟨"b", none⟩)))) '"' "./a" true] joined := by
  let s := joined.toList
  have himport : Spelled [.word "import"] s (s.drop 6) := spelled_identifier (by decide +kernel)
  have hname : Spelled [.word "A"] (s.drop 6) (s.drop 8) := spelled_identifier (by decide +kernel)
  have hopen : expect "\x7b" "" (s.drop 8) = .ok ((), s.drop 10) := by decide +kernel
  have hb : Spelled [.word "b"] (s.drop 10) (s.drop 12) := spelled_identifier (by decide +kernel)
  have hclose : expect "\x7d" "" (s.drop 12) = .ok ((), s.drop 14) := by decide +kernel
  have hfrom : Spelled [.word "from"] (s.drop 14) (s.drop 19) := spelled_identifier (by decide +kernel)
  have hsource : stringLiteral (skipTrivia (s.drop 19)) = .ok ("./a", s.drop 25) := by decide +kernel
  have hend : expect ";" "" (s.drop 25) = .ok ((), s.drop 26) := by decide +kernel
  have hexport : Spelled [.word "export"] (s.drop 26) (s.drop 33) := spelled_identifier (by decide +kernel)
  have hdefault : Spelled [.word "default"] (s.drop 33) (s.drop 41) := spelled_identifier (by decide +kernel)
  obtain ⟨quote, hquote, hliteral⟩ := spelled_literal hsource
  have hdouble : (skipTrivia (s.drop 19)).head? = some '"' := by decide +kernel
  obtain rfl := Option.some.inj (hquote.symm.trans hdouble)
  have hnames := (spelled_expect (c := '\x7b') (by decide) (by decide) hopen).append
    (hb.append (spelled_expect (c := '\x7d') (by decide) (by decide) hclose))
  have hsourced := (hliteral.skipTrivia (List.cons_ne_nil _ _)).append (spelled_expect (c := ';') (by decide) (by decide) hend)
  exact ⟨s.drop 41, himport.append (hname.append (hnames.append (hfrom.append (hsourced.append (hexport.append hdefault)))))⟩

theorem a_clause_without_its_comma_is_accepted :
    parse joined 1 = .ok ⟨[⟨"A", "./a", .default_⟩, ⟨"b", "./a", .named "b"⟩], ⟨["A"], [], []⟩⟩ ∧
      ¬ ∃ es, (∀ e ∈ es, e.Proper) ∧ Declares es joined := by
  have hheader : header joined.toList = .ok (⟨[⟨"A", "./a", .default_⟩, ⟨"b", "./a", .named "b"⟩], false, 0⟩, ['<', 'A', ' ', '/', '>']) := by
    decide +kernel
  refine ⟨parse_of_parts hheader rfl rfl, ?_⟩
  rintro ⟨es, hproper, hes⟩
  obtain rfl := declares_unique hes joined_declares
  have hcomma := (ImportDeclaration.proper_iff.mp (hproper _ (List.mem_singleton_self _))).2
  cases hcomma

end PatternCatalog.Markup
