/-
  PatternCatalog.Proofs.Documentation — which comment documents a file, and what the others document.

  The first documentation in which one of the words `@packageDocumentation`, `@module` and
  `@file` stands is taken for that of the file (`fileDoc_ofComments`). Any other documentation
  is that of the token it leads to, if it is the first there (`docAt?_of_first`). The words are
  looked for anywhere in the text, and a word is not a tag: it may stand in prose, in a longer
  word or inside a fence. So no documentation goes astray exactly when the comment that is
  taken has one of the tags (`documentation_kept_iff`), and there is a file in which the example
  of a member is taken (`an_example_is_taken_for_the_file`).
-/

import PatternCatalog.Doc
import PatternCatalog.Module

namespace PatternCatalog

namespace Script

namespace Comment

/-- Whether the comment, read as documentation, has one of the tags for files. -/
def isForFile (c : Comment) : Bool :=
  ["packageDocumentation", "module", "file"].any (Doc.parse (String.ofList c.text)).hasTag

/-- Whether the comment is documentation in which the word of such a tag stands. -/
def namesFile (c : Comment) : Bool := c.isDoc && c.hasFileTag

end Comment

namespace DocTable

/-- Whether the comment becomes the documentation of the file. -/
def Takes (t : DocTable) (c : Comment) : Prop := t.fileDoc = none ∧ (t.add c).fileDoc = some (String.ofList c.text)

/-! ## One comment -/

/-- What a comment does: nothing, or it documents the file, or its token unless that has documentation. -/
theorem add_cases (t : DocTable) (c : Comment) :
    (c.isDoc = false ∧ t.add c = t) ∨
    (t.fileDoc = none ∧ c.namesFile = true ∧ t.add c = { t with fileDoc := some (String.ofList c.text) }) ∨
    (c.isDoc = true ∧ (t.fileDoc = none → c.namesFile = false) ∧
      t.add c = if (t.docAt? c.target).isSome then t
        else { t with attached := (c.target, String.ofList c.text) :: t.attached }) := by
  unfold add Comment.namesFile
  split
  · next h => exact .inl ⟨by simpa using h, rfl⟩
  · next hdoc =>
    have hdoc : c.isDoc = true := by simpa using hdoc
    split
    · next h => exact .inr (.inl ⟨Option.isNone_iff_eq_none.mp h.1, by rw [hdoc, h.2]; rfl, rfl⟩)
    · next h =>
      refine .inr (.inr ⟨hdoc, fun hnone => ?_, rfl⟩)
      rw [hnone] at h
      simpa [hdoc] using h

theorem add_fileDoc (t : DocTable) (c : Comment) :
    (t.add c).fileDoc = (t.fileDoc <|> if c.namesFile then some (String.ofList c.text) else none) := by
  rcases t.add_cases c with ⟨hdoc, hadd⟩ | ⟨hnone, hnames, hadd⟩ | ⟨-, hnames, hadd⟩
  · have hnames : c.namesFile = false := by rw [Comment.namesFile, hdoc]; rfl
    rw [hadd, hnames]
    cases t.fileDoc <;> rfl
  · rw [hadd, hnone, hnames]
    rfl
  · have hsame : (t.add c).fileDoc = t.fileDoc := by
      rw [hadd]
      split <;> rfl
    rw [hsame]
    cases hfile : t.fileDoc with
    | none => rw [hnames hfile]; rfl
    | some doc => rfl

theorem takes_iff (t : DocTable) (c : Comment) : t.Takes c ↔ t.fileDoc = none ∧ c.namesFile = true := by
  unfold Takes
  rw [add_fileDoc]
  refine and_congr_right fun hnone => ?_
  rw [hnone]
  cases c.namesFile <;> simp

/-- The first documentation of a token stays. -/
theorem add_docAt?_of_some {t : DocTable} {target : Nat} {doc : String} (h : t.docAt? target = some doc) (c : Comment) :
    (t.add c).docAt? target = some doc := by
  rcases t.add_cases c with ⟨-, hadd⟩ | ⟨-, -, hadd⟩ | ⟨-, -, hadd⟩
  · rw [hadd, h]
  · rw [hadd]
    exact h
  · rw [hadd]
    split
    · exact h
    · next hnone =>
      have hne : target ≠ c.target := by
        rintro rfl
        rw [h] at hnone
        exact hnone rfl
      rw [docAt?, List.lookup_cons, beq_eq_false_iff_ne.mpr hne]
      exact h

/-- Documentation that is not taken for the file is that of its token, if that has none yet. -/
theorem add_docAt?_of_none {t : DocTable} {c : Comment} (hdoc : c.isDoc = true) (hleft : ¬ t.Takes c)
    (h : t.docAt? c.target = none) : (t.add c).docAt? c.target = some (String.ofList c.text) := by
  rcases t.add_cases c with ⟨hno, -⟩ | ⟨hnone, hnames, -⟩ | ⟨-, -, hadd⟩
  · rw [hdoc] at hno
    cases hno
  · exact absurd ((t.takes_iff c).mpr ⟨hnone, hnames⟩) hleft
  · rw [hadd, h]
    exact List.lookup_cons_self

/-- What documents a token is from before, or a comment that leads to it. -/
theorem docAt?_of_add {t : DocTable} {c : Comment} {target : Nat} {doc : String} (h : (t.add c).docAt? target = some doc) :
    t.docAt? target = some doc ∨ c.isDoc = true ∧ c.target = target := by
  rcases t.add_cases c with ⟨-, hadd⟩ | ⟨-, -, hadd⟩ | ⟨hdoc, -, hadd⟩
  · exact .inl (hadd ▸ h)
  · rw [hadd] at h
    exact .inl h
  · by_cases htarget : c.target = target
    · exact .inr ⟨hdoc, htarget⟩
    · rw [hadd] at h
      split at h
      · exact .inl h
      · rw [docAt?, List.lookup_cons, beq_eq_false_iff_ne.mpr (Ne.symm htarget)] at h
        exact .inl h

/-! ## All comments -/

theorem foldl_add_fileDoc (cs : List Comment) (t : DocTable) :
    (cs.foldl add t).fileDoc = (t.fileDoc <|> (cs.find? (·.namesFile)).map fun c => String.ofList c.text) := by
  induction cs generalizing t with
  | nil => cases h : t.fileDoc <;> simp [h]
  | cons c cs ih =>
    rw [List.foldl_cons, ih, add_fileDoc, List.find?_cons]
    cases t.fileDoc <;> cases c.namesFile <;> rfl

/-- The first documentation that names the file documents it. -/
theorem fileDoc_ofComments (cs : List Comment) :
    (ofComments cs).fileDoc = (cs.find? (·.namesFile)).map fun c => String.ofList c.text := by
  rw [ofComments, foldl_add_fileDoc]
  rfl

theorem foldl_add_docAt?_of_some (cs : List Comment) {t : DocTable} {target : Nat} {doc : String}
    (h : t.docAt? target = some doc) : (cs.foldl add t).docAt? target = some doc := by
  induction cs generalizing t with
  | nil => exact h
  | cons c cs ih => exact ih (add_docAt?_of_some h c)

theorem docAt?_of_foldl_add {cs : List Comment} {t : DocTable} {target : Nat} {doc : String}
    (h : (cs.foldl add t).docAt? target = some doc) :
    t.docAt? target = some doc ∨ ∃ c ∈ cs, c.isDoc = true ∧ c.target = target := by
  induction cs generalizing t with
  | nil => exact .inl h
  | cons c cs ih =>
    rcases ih h with h | ⟨d, hd, hdoc, htarget⟩
    · rcases docAt?_of_add h with h | ⟨hdoc, htarget⟩
      · exact .inl h
      · exact .inr ⟨c, List.mem_cons_self, hdoc, htarget⟩
    · exact .inr ⟨d, List.mem_cons_of_mem _ hd, hdoc, htarget⟩

/-- The first documentation that leads to a token is that of the token, unless it is taken for the file. -/
theorem docAt?_of_first {before after : List Comment} {c : Comment} (hdoc : c.isDoc = true)
    (hleft : ¬ (ofComments before).Takes c) (hfirst : ∀ b ∈ before, b.isDoc = true → b.target ≠ c.target) :
    (ofComments (before ++ c :: after)).docAt? c.target = some (String.ofList c.text) := by
  have hnone : (ofComments before).docAt? c.target = none := by
    cases h : (ofComments before).docAt? c.target with
    | none => rfl
    | some doc =>
      rcases docAt?_of_foldl_add h with h | ⟨b, hb, hbdoc, htarget⟩
      · cases h
      · exact absurd htarget (hfirst b hb hbdoc)
  rw [ofComments_append, List.foldl_cons]
  exact foldl_add_docAt?_of_some after (add_docAt?_of_none hdoc hleft hnone)

theorem takes_ofComments_iff (before : List Comment) (c : Comment) :
    (ofComments before).Takes c ↔ c.namesFile = true ∧ ∀ b ∈ before, b.namesFile = false := by
  rw [takes_iff, fileDoc_ofComments, Option.map_eq_none_iff, List.find?_eq_none, and_comm]
  simp only [Bool.not_eq_true]

end DocTable

open DocTable (ofComments)

/-- Whether no documentation goes astray: what is taken for the file has a tag for files, and any
other documentation is that of its token, if it is the first there. -/
def DocumentationKept (cs : List Comment) : Prop :=
  ∀ before c after, cs = before ++ c :: after → c.isDoc = true →
    ((ofComments before).Takes c → c.isForFile = true) ∧
    (¬ (ofComments before).Takes c → (∀ b ∈ before, b.isDoc = true → b.target ≠ c.target) →
      (ofComments cs).docAt? c.target = some (String.ofList c.text))

theorem DocumentationKept.iff (cs : List Comment) :
    DocumentationKept cs ↔ ∀ c, cs.find? (·.namesFile) = some c → c.isForFile = true := by
  constructor
  · intro h c hc
    obtain ⟨hnames, before, after, rfl, hbefore⟩ := List.find?_eq_some_iff_append.mp hc
    have hdoc : c.isDoc = true := (Bool.and_eq_true_iff.mp hnames).1
    refine (h before c after rfl hdoc).1 ((DocTable.takes_ofComments_iff before c).mpr ⟨hnames, fun b hb => ?_⟩)
    simpa using hbefore b hb
  · rintro h before c after rfl hdoc
    refine ⟨fun htakes => h c ?_, DocTable.docAt?_of_first hdoc⟩
    obtain ⟨hnames, hbefore⟩ := (DocTable.takes_ofComments_iff before c).mp htakes
    exact List.find?_eq_some_iff_append.mpr ⟨hnames, before, after, rfl, fun b hb => by rw [hbefore b hb]; rfl⟩

end Script

namespace Module

open Script (Comment DocumentationKept)

/-- The comments that lead to the tokens of a text; none where the text is outside the grammar. -/
def comments (text : String) : List Comment :=
  match Script.parse? dialect text with
  | some s => s.comments
  | none => []

/-- The documentation of the members of an interface. -/
def memberDocs (d : Declaration) : List (Option String) :=
  match d.kind with
  | .interface _ members => members.map (·.doc)
  | _ => []

theorem addDependency_fileDoc (m : Module) (source : String) : (m.addDependency source).fileDoc = m.fileDoc := by
  unfold addDependency
  split <;> rfl

theorem addStatement_fileDoc (m : Module) (doc : Option String) (st : Script.Statement) :
    (m.addStatement doc st).fileDoc = m.fileDoc := by
  cases st with
  | «import» source bindings => exact addDependency_fileDoc m source
  | exportList specifiers source =>
    cases source with
    | none => rfl
    | some source => exact addDependency_fileDoc m source
  | exportAll source name => cases name <;> exact addDependency_fileDoc m source
  | exportDeclaration d => rfl
  | exportDefault d => cases d <;> rfl
  | exportAssignment name => rfl
  | declaration d => rfl
  | other => rfl

theorem ofItems_fileDoc (docs : Script.DocTable) (items : List Script.Item) : (ofItems docs items).fileDoc = docs.fileDoc := by
  have hrun : ∀ m : Module, (items.foldl (addItem docs) m).fileDoc = m.fileDoc := by
    induction items with
    | nil => exact fun _ => rfl
    | cons i items ih => exact fun m => (ih _).trans (addStatement_fileDoc m _ i.statement)
  exact hrun { fileDoc := docs.fileDoc }

theorem parse_fileDoc (text : String) : (parse text).fileDoc = (Script.DocTable.ofComments (comments text)).fileDoc := by
  unfold parse comments
  cases Script.parse? dialect text with
  | none => rfl
  | some s => exact ofItems_fileDoc s.docs s.items

/-- The documentation of a file is the first comment that names the file, and no documentation of
the file goes astray exactly when that comment has a tag for files. -/
theorem documentation_kept_iff (text : String) :
    (parse text).fileDoc = ((comments text).find? (·.namesFile)).map (fun c => String.ofList c.text) ∧
      (DocumentationKept (comments text) ↔ ∀ c, (comments text).find? (·.namesFile) = some c → c.isForFile = true) :=
  ⟨by rw [parse_fileDoc, Script.DocTable.fileDoc_ofComments], DocumentationKept.iff (comments text)⟩

/-- The example of a member imports from `@module/ui`: it is taken for the documentation of the
file, and the member has none. -/
theorem an_example_is_taken_for_the_file :
    let text := "interface Props \x7b\n /**\n * @default\n * \x60\x60\x60\n * import B from \"@module/ui\";\n * \x60\x60\x60\n */\n a: A;\n\x7d"
    ¬ DocumentationKept (comments text) ∧ ((parse text).declarations.flatMap memberDocs) = [none] := by
  intro text
  have hrun : ((comments text).find? (·.namesFile)).map (·.isForFile) = some false ∧
      ((parse text).declarations.flatMap memberDocs) = [none] := by
    decide +kernel
  obtain ⟨c, hc, hno⟩ := Option.map_eq_some_iff.mp hrun.1
  refine ⟨fun h => ?_, hrun.2⟩
  have hyes := (DocumentationKept.iff _).mp h c hc
  rw [hno] at hyes
  cases hyes

end Module

end PatternCatalog
