/-
  PatternCatalog.Proofs.Component.Detection — when it turns out whether a declaration is a component.

  Whether a result type is an element type is asked through aliases and the parts of unions. One
  chain of aliases is followed `typeDepth` steps and no further, and a chain that ends at the
  alias whose body is being asked ends the walk. Nothing else bounds it. So the detection is
  also written with walks that are cut off at a length (`shapeWithin?`): it ends when some
  length is enough.
  - `shapeWithin?_eq`: what it ends with is the shape of the declaration, whatever the length.
  - `returnsElement?_awaiting`: a walk waits for the answers of other states (`Awaits`), and has
    an answer once it has theirs.
  - `detection_ends_iff`: the detection ends exactly when no state that its walks come to waits
    for itself.
  - `circles_are_not_left`: a union with itself and a circle of three aliases are walked through
    for ever.
-/

import PatternCatalog.Proofs.Component

namespace PatternCatalog.Component

open Library (Place)

/-! ## Walks of bounded length -/

section Within

variable (l : Library) (o : Options) (length : Nat)

def functionPropsWithin? (file : Nat) (params : List Param) (returns : TypeExpr) : Option (Option (Option Place)) :=
  if 1 < params.length then some none
  else
    (returnsElement? l o length none ⟨file, returns⟩).map fun isElement =>
      if isElement then some ((params.head?.bind (·.type)).map fun type => ⟨file, type⟩) else none

def typedPropsWithin? : Nat → Place → Option (Option (Option Place))
  | 0, _ => some none
  | depth + 1, p =>
    let q := l.resolveAlias p
    match q.type with
    | .reference _ name args =>
      if !o.isComponentType name then some none
      else
        match args with
        | [] => some (some none)
        | first :: _ =>
          let inner : Place := ⟨q.file, first⟩
          (typedPropsWithin? depth inner).map fun found => some (found.getD (some inner))
    | .function params returns => functionPropsWithin? l o length q.file params returns
    | _ => some none

def propsWithin? (file : Nat) : DeclarationKind → Option (Option (Option Place))
  | .variable (some type) => typedPropsWithin? l o length (wrapperDepth + 1) ⟨file, type⟩
  | .class (some (.reference _ name args)) =>
    some (if o.isClassComponent name then some (args.head?.map fun type => ⟨file, type⟩) else none)
  | .function params (some returns) => functionPropsWithin? l o length file params returns
  | _ => some none

/-- The shape of a declaration; none when a walk through a result type is longer than the given length. -/
def shapeWithin? (key : DeclarationKey) : Option (Option Shape) :=
  match l.declaration? key with
  | none => some none
  | some d => (propsWithin? l o length key.file d.kind).map fun props => props.map fun type => ⟨key, type⟩

/-- Whether the walks through some result types end within a length. -/
def walksEnd (ps : List Place) : Bool := ps.all fun p => (returnsElement? l o length none p).isSome

end Within

variable {l : Library} {o : Options} {length : Nat}

/-- Whatever a walk finds, however long it is, is what the bounded one finds. -/
theorem returnsElement_of_walk {p : Place} {b : Bool} (h : returnsElement? l o length none p = some b) :
    returnsElement l o p = b := by
  unfold returnsElement
  rw [returnsElement?_typeNodes h]
  rfl

theorem functionPropsWithin?_eq (file : Nat) (params : List Param) (returns : TypeExpr) :
    functionPropsWithin? l o length file params returns =
      if walksEnd l o length (functionResults file params returns) then some (functionProps? l o file params returns)
      else none := by
  unfold functionPropsWithin? functionProps? functionResults
  by_cases hparams : 1 < params.length
  · simp [hparams, walksEnd]
  · cases hwalk : returnsElement? l o length none ⟨file, returns⟩ with
    | none => simp [hparams, walksEnd, hwalk]
    | some b =>
      have hb := returnsElement_of_walk hwalk
      cases b <;> simp [hparams, walksEnd, hwalk, hb]

theorem typedPropsWithin?_eq (depth : Nat) (p : Place) :
    typedPropsWithin? l o length depth p =
      if walksEnd l o length (typedResults l o depth p) then some (typedProps? l o depth p) else none := by
  induction depth generalizing p with
  | zero => rfl
  | succ depth ih =>
    simp only [typedPropsWithin?, typedProps?, typedResults]
    generalize l.resolveAlias p = q
    obtain ⟨file, type⟩ := q
    cases type with
    | reference module name args =>
      cases hname : o.isComponentType name with
      | false => simp [hname, walksEnd]
      | true =>
        cases args with
        | nil => simp [hname, walksEnd]
        | cons first rest =>
          have hinner := ih ⟨file, first⟩
          cases hends : walksEnd l o length (typedResults l o depth ⟨file, first⟩) <;> simp [hname, hinner, hends]
    | function params returns => exact functionPropsWithin?_eq file params returns
    | _ => rfl

theorem propsWithin?_eq (file : Nat) (kind : DeclarationKind) :
    propsWithin? l o length file kind =
      if walksEnd l o length (results l o file kind) then some (props? l o file kind) else none := by
  rcases kind with _ | _ | _ | parent | ⟨params, returns⟩ | type
  · rfl
  · rfl
  · rfl
  · rcases parent with _ | _ | _ | _ | _ | _ | _ | _ | _ | _ <;> rfl
  · cases returns with
    | none => rfl
    | some returns => exact functionPropsWithin?_eq _ _ _
  · cases type with
    | none => rfl
    | some type => exact typedPropsWithin?_eq _ _

/-- A detection that ends gives the shape, and it ends when all its walks do. -/
theorem shapeWithin?_eq (key : DeclarationKey) :
    shapeWithin? l o length key =
      if (l.kind? key).all fun kind => walksEnd l o length (results l o key.file kind) then some (shape? l o key)
      else none := by
  unfold shapeWithin? shape? Library.kind?
  cases l.declaration? key with
  | none => rfl
  | some d =>
    dsimp only
    rw [propsWithin?_eq]
    cases hends : walksEnd l o length (results l o key.file d.kind) with
    | false => simp [hends]
    | true => cases hprops : props? l o key.file d.kind <;> simp [hends, hprops]

/-! ## Walks that wait for others -/

section Checks

variable {α : Type} {f : Nat → α → Option Bool}

/-- A check is made when those before it fail. -/
theorem check_of_anyM {f : α → Option Bool} {before after : List α} {a : α}
    (hbefore : ∀ x ∈ before, ∀ c, f x = some c → c = false) {b : Bool}
    (h : (before ++ a :: after).anyM f = some b) : ∃ c, f a = some c := by
  induction before with
  | nil =>
    obtain ⟨c, hc, -⟩ := Option.bind_eq_some_iff.mp h
    exact ⟨c, hc⟩
  | cons x before ih =>
    obtain ⟨c, hc, h⟩ := Option.bind_eq_some_iff.mp h
    obtain rfl := hbefore x List.mem_cons_self c hc
    exact ih (fun y hy => hbefore y (List.mem_cons_of_mem _ hy)) h

/-- Checks that each end when they are made end together. -/
theorem exists_anyM (hmono : ∀ {n m a b}, n ≤ m → f n a = some b → f m a = some b) {as : List α}
    (hcheck : ∀ before a after, as = before ++ a :: after → (∀ x ∈ before, ∃ n, f n x = some false) →
      ∃ n b, f n a = some b) :
    ∃ n b, as.anyM (f n) = some b := by
  induction as with
  | nil => exact ⟨0, false, rfl⟩
  | cons a as ih =>
    obtain ⟨n, b, hb⟩ := hcheck [] a as rfl fun _ hx => nomatch hx
    cases b with
    | true =>
      refine ⟨n, true, ?_⟩
      rw [List.anyM, hb]
      rfl
    | false =>
      obtain ⟨m, b, hrest⟩ := ih fun before x after has hbefore =>
        hcheck (a :: before) x after (congrArg (a :: ·) has) (List.forall_mem_cons.mpr ⟨⟨n, hb⟩, hbefore⟩)
      refine ⟨max n m, b, ?_⟩
      rw [List.anyM, hmono (Nat.le_max_left n m) hb]
      exact anyM_of_checks (fun _ _ _ _ _ _ hc => hmono (Nat.le_max_right n m) hc) hrest

end Checks

theorem returnsElement?_mono {n m : Nat} (hle : n ≤ m) {s : WalkState} {b : Bool}
    (h : returnsElement? l o n s.1 s.2 = some b) : returnsElement? l o m s.1 s.2 = some b :=
  (returnsElement?_fueled l o).mono hle h

theorem returnsElement?_unique {n m : Nat} {s : WalkState} {b c : Bool} (hb : returnsElement? l o n s.1 s.2 = some b)
    (hc : returnsElement? l o m s.1 s.2 = some c) : b = c := (returnsElement?_fueled l o).unique hb hc

theorem returnsElement?_awaiting (l : Library) (o : Options) :
    Awaiting (fun n (s : WalkState) => returnsElement? l o n s.1 s.2) (Awaits l o) where
  toFueled := returnsElement?_fueled l o
  awaits := by
    intro n s b hb t hawaits
    cases hawaits with
    | @body origin p module name args key htype hname hkey hnew =>
      simp only [returnsElement?, htype, hname, hkey, hnew, if_false] at hb
      exact ⟨b, hb⟩
    | @part origin p parts before part after hunion hparts hbefore =>
      simp only [returnsElement?, hunion, hparts] at hb
      refine check_of_anyM (f := fun part => returnsElement? l o n none ⟨p.file, part⟩) (fun x hx c hc => ?_) hb
      obtain ⟨m, hfalse⟩ := hbefore x hx
      exact returnsElement?_unique (s := (none, ⟨p.file, x⟩)) hc hfalse
  answers := by
    intro s hanswered
    obtain ⟨origin, file, type⟩ := s
    cases type with
    | reference module name args =>
      by_cases hname : o.isElementType name = true
      · exact ⟨1, true, by simp [returnsElement?, hname]⟩
      · cases hkey : l.lastAlias? ⟨file, .reference module name args⟩ with
        | none => exact ⟨1, false, by simp [returnsElement?, hname, hkey]⟩
        | some key =>
          by_cases hback : origin = some key
          · exact ⟨1, false, by simp [returnsElement?, hname, hkey, hback]⟩
          · obtain ⟨n, b, hb⟩ := hanswered _ (.body rfl hname hkey hback)
            refine ⟨n + 1, b, ?_⟩
            simp only [returnsElement?, hname, hkey, hback, if_false]
            exact hb
    | union parts =>
      obtain ⟨n, b, hb⟩ := exists_anyM (f := fun n part => returnsElement? l o n none ⟨file, part⟩)
        (fun {_ _ a _} hle hc => returnsElement?_mono (s := (none, ⟨file, a⟩)) hle hc)
        fun before part after hparts hbefore => hanswered _ (.part rfl hparts hbefore)
      exact ⟨n + 1, b, hb⟩
    | _ => exact ⟨1, false, rfl⟩

/-! ## Detections that end -/

/-- Whether no state that the walk through a type comes to waits for itself. -/
def Grounded (l : Library) (o : Options) (p : Place) : Prop :=
  ∀ t, Relation.ReflTransGen (Awaits l o) (none, p) t → ¬ Relation.TransGen (Awaits l o) t t

theorem walk_ends_iff (p : Place) : (∃ n, (returnsElement? l o n none p).isSome) ↔ Grounded l o p := by
  have hstart : ((none, p) : WalkState) ∈ walkStates l p := List.mem_append_left _ List.mem_cons_self
  rw [Grounded, ← (returnsElement?_awaiting l o).answered_iff (fun s hs t ht => walkStates_closed p s hs t ht.next) hstart]
  simp only [Option.isSome_iff_exists]

/-- Walks that each end within some length end within one. -/
theorem exists_walksEnd {ps : List Place} (h : ∀ p ∈ ps, ∃ n, (returnsElement? l o n none p).isSome) :
    ∃ n, walksEnd l o n ps = true := by
  induction ps with
  | nil => exact ⟨0, rfl⟩
  | cons p ps ih =>
    obtain ⟨n, hn⟩ := h p List.mem_cons_self
    obtain ⟨m, hm⟩ := ih fun q hq => h q (List.mem_cons_of_mem _ hq)
    refine ⟨max n m, List.all_eq_true.mpr fun q hq => ?_⟩
    obtain ⟨k, hle, hk⟩ : ∃ k ≤ max n m, (returnsElement? l o k none q).isSome := by
      rcases List.mem_cons.mp hq with rfl | hq
      · exact ⟨n, Nat.le_max_left n m, hn⟩
      · exact ⟨m, Nat.le_max_right n m, List.all_eq_true.mp hm q hq⟩
    obtain ⟨b, hb⟩ := Option.isSome_iff_exists.mp hk
    exact Option.isSome_iff_exists.mpr ⟨b, returnsElement?_mono (s := (none, q)) hle hb⟩

/-- The detection ends, and then with the shape of the declaration, when it is decided whether that
is a component; and this is so exactly when no state of its walks comes to wait for itself. -/
theorem detection_ends_iff (l : Library) (o : Options) (key : DeclarationKey) :
    (∀ shape, (∃ length, shapeWithin? l o length key = some shape) ↔ isDecided l o key = true ∧ shape = shape? l o key) ∧
    (isDecided l o key = true ↔
      ∀ kind, l.kind? key = some kind → ∀ p ∈ results l o key.file kind, Grounded l o p) := by
  have hends : (∃ length, (l.kind? key).all (fun kind => walksEnd l o length (results l o key.file kind)) = true) ↔
      isDecided l o key = true := by
    rw [isDecided_iff]
    cases l.kind? key with
    | none => simp
    | some kind =>
      simp only [Option.all_some, Option.some.injEq, forall_eq']
      exact ⟨fun ⟨n, hn⟩ p hp => ⟨n, List.all_eq_true.mp hn p hp⟩, exists_walksEnd⟩
  refine ⟨fun shape => ?_, ?_⟩
  · rw [← hends, ← exists_and_right]
    refine exists_congr fun length => ?_
    rw [shapeWithin?_eq, Option.ite_none_right_eq_some, Option.some.injEq, eq_comm (a := shape)]
  · rw [isDecided_iff]
    exact forall₂_congr fun kind _ => forall₂_congr fun p _ => walk_ends_iff p

/-! ## Walks without end -/

theorem shapeWithin?_eq_none {key : DeclarationKey} {kind : DeclarationKind} {p : Place} (hkind : l.kind? key = some kind)
    (hp : p ∈ results l o key.file kind) (hcycle : ¬ Grounded l o p) : shapeWithin? l o length key = none := by
  have hwalk : returnsElement? l o length none p = none := by
    rw [← Option.not_isSome_iff_eq_none]
    exact fun h => hcycle (walk_ends_iff p |>.mp ⟨length, h⟩)
  have hends : walksEnd l o length (results l o key.file kind) = false := by
    rw [walksEnd, List.all_eq_false]
    exact ⟨p, hp, by simp [hwalk]⟩
  simp [shapeWithin?_eq, hkind, hends]

def named (name : String) : TypeExpr := .reference none [name] []

/-- `type A = A | string` and `export declare function make(): A`. -/
def selfUnionLibrary : Library :=
  let exports := [⟨"make", .here "make"⟩]
  let declarations := [⟨"A", 0, none, .alias (.union [named "A", .keyword .string])⟩,
    ⟨"make", 28, none, .function [] (some (named "A"))⟩]
  .ofFiles ⟨"/lib"⟩ none [".d.ts"] [⟨⟨"/lib/index.d.ts"⟩, { exports, declarations }⟩]

/-- `type A = B`, `type B = C`, `type C = A` and `export declare function make(): A`. -/
def circleLibrary : Library :=
  let exports := [⟨"make", .here "make"⟩]
  let declarations := [⟨"A", 0, none, .alias (named "B")⟩, ⟨"B", 12, none, .alias (named "C")⟩,
    ⟨"C", 24, none, .alias (named "A")⟩, ⟨"make", 43, none, .function [] (some (named "A"))⟩]
  .ofFiles ⟨"/lib"⟩ none [".d.ts"] [⟨⟨"/lib/index.d.ts"⟩, { exports, declarations }⟩]

/-- The alias leads to the union, and the first part of the union is the alias. -/
theorem selfUnion_cycle : Relation.TransGen (Awaits selfUnionLibrary {}) (none, ⟨0, named "A"⟩) (none, ⟨0, named "A"⟩) :=
  have hbody : Awaits selfUnionLibrary {} (none, ⟨0, named "A"⟩)
      (some ⟨0, 0⟩, ⟨0, .union [named "A", .keyword .string]⟩) := .body rfl (by decide) (by rfl) (by decide)
  have hpart : Awaits selfUnionLibrary {} (some ⟨0, 0⟩, ⟨0, .union [named "A", .keyword .string]⟩)
      (none, ⟨0, named "A"⟩) := .part rfl (List.nil_append _).symm fun _ ht => nomatch ht
  .tail (.single hbody) hpart

/-- In 32 steps a chain goes round the circle ten times and two aliases further. -/
theorem circle_cycle : Relation.TransGen (Awaits circleLibrary {}) (some ⟨0, 1⟩, ⟨0, named "C"⟩) (some ⟨0, 1⟩, ⟨0, named "C"⟩) :=
  have hC : Awaits circleLibrary {} (some ⟨0, 1⟩, ⟨0, named "C"⟩) (some ⟨0, 0⟩, ⟨0, named "B"⟩) :=
    .body rfl (by decide) (by rfl) (by decide)
  have hB : Awaits circleLibrary {} (some ⟨0, 0⟩, ⟨0, named "B"⟩) (some ⟨0, 2⟩, ⟨0, named "A"⟩) :=
    .body rfl (by decide) (by rfl) (by decide)
  have hA : Awaits circleLibrary {} (some ⟨0, 2⟩, ⟨0, named "A"⟩) (some ⟨0, 1⟩, ⟨0, named "C"⟩) :=
    .body rfl (by decide) (by rfl) (by decide)
  .tail (.tail (.single hC) hB) hA

/-- Whatever the length of its walks, the detection ends neither for a function that returns the
union nor for one that returns an alias of the circle. -/
theorem circles_are_not_left :
    (∀ length, shapeWithin? selfUnionLibrary {} length ⟨0, 1⟩ = none) ∧
      ∀ length, shapeWithin? circleLibrary {} length ⟨0, 3⟩ = none := by
  constructor
  · intro length
    refine shapeWithin?_eq_none (p := ⟨0, named "A"⟩) rfl (List.mem_singleton_self _) fun h => ?_
    exact h _ .refl selfUnion_cycle
  · intro length
    have hfirst : Awaits circleLibrary {} (none, ⟨0, named "A"⟩) (some ⟨0, 1⟩, ⟨0, named "C"⟩) :=
      .body rfl (by decide) (by rfl) (by decide)
    refine shapeWithin?_eq_none (p := ⟨0, named "A"⟩) rfl (List.mem_singleton_self _) fun h => ?_
    exact h _ (.single hfirst) circle_cycle

end PatternCatalog.Component
