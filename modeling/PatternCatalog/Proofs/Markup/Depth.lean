/-
  PatternCatalog.Proofs.Markup.Depth — the nesting limit is exact.

  Reading an example enters elements, each at a depth (`Enters`). The limit decides nothing but
  whether one of them is too deep:
  - `exact`: what enters no element deeper than a smaller limit is read with that limit as before,
    and what does enter one fails as too deep, whatever else is wrong with the text.
  - `read_depth`, `exists_deep`: what is read nests as deep as the elements entered, and no deeper.
  - `parse_limit`: so for an example with all that stands around its root element.
-/

import PatternCatalog.Proofs.Markup.Calls
import PatternCatalog.Proofs.Markup.Header

namespace PatternCatalog.Markup

open Relation (ReflTransGen)

/-! ## One limit and a smaller one -/

/-- A call enters an element deeper than a depth. -/
def Deeper (limit d : Nat) (call : Call) : Prop :=
  ∃ depth s, ReflTransGen (Calls limit) call (.element depth s) ∧ d < depth

theorem deeper_iff {limit d : Nat} {call : Call} : Deeper limit d call ↔
    (∃ depth s, call = .element depth s ∧ d < depth) ∨ ∃ call', Calls limit call call' ∧ Deeper limit d call' := by
  constructor
  · rintro ⟨depth, s, hpath, hd⟩
    rcases hpath.cases_head with rfl | ⟨call', hstep, hpath'⟩
    · exact .inl ⟨depth, s, rfl, hd⟩
    · exact .inr ⟨call', hstep, depth, s, hpath', hd⟩
  · rintro (⟨depth, s, rfl, hd⟩ | ⟨call', hstep, depth, s, hpath, hd⟩)
    · exact ⟨depth, s, .refl, hd⟩
    · exact ⟨depth, s, .head hstep hpath, hd⟩

/-- What a smaller limit does to a call. -/
structure Exact (limit d : Nat) (call : Call) : Prop where
  same : ¬ Deeper limit d call → call.read d = call.read limit
  deep : Deeper limit d call → call.read d = .error (.tooDeep d)

section
variable {limit d : Nat} {call call' : Call}

/-- A call that makes no other and is read the same. -/
theorem Exact.of_leaf (hdepth : ∀ depth s, call = .element depth s → depth ≤ d) (h : ∀ call', ¬ Calls limit call call')
    (hread : call.read d = call.read limit) : Exact limit d call := by
  refine ⟨fun _ => hread, fun hdeep => ?_⟩
  rcases deeper_iff.mp hdeep with ⟨depth, s, hcall, hd⟩ | ⟨call', hstep, -⟩
  · exact absurd (hdepth depth s hcall) (Nat.not_le.mpr hd)
  · exact absurd hstep (h call')

/-- A call that makes one other, and does with its answer what no limit decides. -/
theorem Exact.of_call {f : List Node × List Char → Scan (List Node × List Char)}
    (hdepth : ∀ depth s, call = .element depth s → depth ≤ d) (hstep : Calls limit call call')
    (h : ∀ call'', Calls limit call call'' → call'' = call') (hd : call.read d = call'.read d >>= f)
    (hlimit : call.read limit = call'.read limit >>= f) (ih : Exact limit d call') : Exact limit d call := by
  refine ⟨fun hshallow => ?_, fun hdeep => ?_⟩
  · rw [hd, hlimit, ih.same fun hdeep => hshallow (deeper_iff.mpr (.inr ⟨call', hstep, hdeep⟩))]
  · rcases deeper_iff.mp hdeep with ⟨depth, s, hcall, hlt⟩ | ⟨call'', hstep', hdeep'⟩
    · exact absurd (hdepth depth s hcall) (Nat.not_le.mpr hlt)
    · rw [hd, ih.deep (h call'' hstep' ▸ hdeep')]
      rfl

theorem Exact.element {depth : Nat} {s : List Char} (h : d ≤ limit)
    (ih : ∀ call', Calls limit (.element depth s) call' → Exact limit d call') : Exact limit d (.element depth s) := by
  by_cases hd : d < depth
  · refine ⟨fun hshallow => absurd ⟨depth, s, .refl, hd⟩ hshallow, fun _ => ?_⟩
    rw [read_element, if_pos hd]
  have hdepth : depth ≤ d := Nat.not_lt.mp hd
  have hdepths : ∀ depth' s', Call.element depth s = .element depth' s' → depth' ≤ d := fun _ _ heq =>
    (Call.element.inj heq).1 ▸ hdepth
  have hread : ∀ {limit'}, depth ≤ limit' → Call.read limit' (.element depth s) = _ := fun hle =>
    read_element.trans (if_neg (Nat.not_lt.mpr hle))
  cases ho : opening s with
  | error e =>
    refine .of_leaf hdepths (fun call' hstep => ?_) ?_
    · obtain ⟨o, r, -, ho', -⟩ := calls_element.mp hstep
      rw [ho] at ho'
      cases ho'
    · rw [hread hdepth, hread (hdepth.trans h), ho]
      rfl
  | ok step =>
    obtain ⟨o, r⟩ := step
    have hcall : ∀ {call'}, Calls limit (.element depth s) call' → o.alone = false ∧ call' = .children depth o.tag r :=
      fun hstep => by
        obtain ⟨o', r', -, ho', halone, rfl⟩ := calls_element.mp hstep
        obtain ⟨rfl, rfl⟩ := Prod.mk.inj (Except.ok.inj (ho.symm.trans ho'))
        exact ⟨halone, rfl⟩
    cases halone : o.alone with
    | true =>
      refine .of_leaf hdepths (fun call' hstep => ?_) ?_
      · exact absurd (hcall hstep).1 (by rw [halone]; decide)
      · rw [hread hdepth, hread (hdepth.trans h), ho]
        simp only [ok_bind, halone, if_true]
    | false =>
      have hstep := Calls.inside (hdepth.trans h) ho halone
      refine .of_call (f := fun step => .ok ([⟨o.tag, o.attributes, step.1⟩], step.2)) hdepths hstep
        (fun call' hstep' => (hcall hstep').2) ?_ ?_ (ih _ hstep)
      · rw [hread hdepth, ho]
        simp only [ok_bind, halone, Bool.false_eq_true, if_false]
        rfl
      · rw [hread (hdepth.trans h), ho]
        simp only [ok_bind, halone, Bool.false_eq_true, if_false]
        rfl

/-- Where a child stands, it is read first, and then the children after it. -/
theorem Exact.child {depth : Nat} {tag : List String} {s r : List Char} (hskip : skipText s = '<' :: r)
    (hslash : r.head? ≠ some '/') (ih : ∀ call', Calls limit (.children depth tag s) call' → Exact limit d call') :
    Exact limit d (.children depth tag s) := by
  have hchild := ih _ (.child hskip hslash)
  have hafter : ∀ {child r'}, Call.read limit (.element (depth + 1) ('<' :: r)) = .ok (child, r') →
      Exact limit d (.children depth tag r') := fun hread => ih _ (.after hskip hslash hread)
  refine ⟨fun hshallow => ?_, fun hdeep => ?_⟩
  · have hshallow' : ∀ call', Calls limit (.children depth tag s) call' → ¬ Deeper limit d call' := fun call' hstep hdeep =>
      hshallow (deeper_iff.mpr (.inr ⟨call', hstep, hdeep⟩))
    rw [read_child hskip hslash, read_child hskip hslash, hchild.same (hshallow' _ (.child hskip hslash))]
    refine Except.bind_congr fun (child, r') hread => ?_
    dsimp only
    rw [(hafter hread).same (hshallow' _ (.after hskip hslash hread))]
  · rw [read_child hskip hslash]
    by_cases hdeepChild : Deeper limit d (.element (depth + 1) ('<' :: r))
    · rw [hchild.deep hdeepChild]
      rfl
    -- the element is read, so one after it is too deep
    rcases deeper_iff.mp hdeep with ⟨_, _, heq, -⟩ | ⟨call', hstep, hdeep'⟩
    · cases heq
    rcases (calls_child hskip hslash).mp hstep with rfl | ⟨child, r', hread, rfl⟩
    · exact absurd hdeep' hdeepChild
    rw [hchild.same hdeepChild, hread, ok_bind]
    dsimp only
    rw [(hafter hread).deep hdeep']
    rfl

theorem Exact.children {depth : Nat} {tag : List String} {s : List Char}
    (ih : ∀ call', Calls limit (.children depth tag s) call' → Exact limit d call') :
    Exact limit d (.children depth tag s) := by
  have hdepths : ∀ depth' s', Call.children depth tag s = .element depth' s' → depth' ≤ d := fun _ _ heq => nomatch heq
  cases next s with
  | nothing hskip => exact .of_leaf hdepths (fun _ => calls_end hskip) ((read_end hskip).trans (read_end hskip).symm)
  | closing r hskip =>
    exact .of_leaf hdepths (fun _ => calls_closing hskip) ((read_closing hskip).trans (read_closing hskip).symm)
  | group r hskip =>
    cases hg : groupBody 0 none [] r with
    | error e =>
      refine .of_leaf hdepths (fun call' hstep => ?_) ?_
      · obtain ⟨g, r', hg', -⟩ := (calls_group hskip).mp hstep
        rw [hg] at hg'
        cases hg'
      · rw [read_group hskip, read_group hskip, hg]
        rfl
    | ok step =>
      obtain ⟨g, r'⟩ := step
      have hread : ∀ limit', Call.read limit' (.children depth tag s) = Call.read limit' (.children depth tag r') :=
        fun limit' => by
          rw [read_group hskip, hg]
          rfl
      have hstep : Calls limit (.children depth tag s) (.children depth tag r') := .group hskip hg
      refine .of_call (f := .ok) hdepths hstep (fun call' hstep' => ?_) ?_ ?_ (ih _ hstep)
      · obtain ⟨g', r'', hg', rfl⟩ := (calls_group hskip).mp hstep'
        obtain ⟨-, rfl⟩ := Prod.mk.inj (Except.ok.inj (hg.symm.trans hg'))
        rfl
      · exact (hread d).trans (bind_pure _).symm
      · exact (hread limit).trans (bind_pure _).symm
  | element r hskip hslash => exact .child hskip hslash ih

end

/-- Every call is read with a smaller limit as before, or fails as too deep. -/
theorem exact {limit d : Nat} (h : d ≤ limit) (call : Call) : Exact limit d call := by
  induction hsize : call.size using Nat.strong_induction_on generalizing call with
  | _ size ih =>
    have hcalls : ∀ call', Calls limit call call' → Exact limit d call' := fun call' hstep =>
      ih _ (hsize ▸ hstep.size_lt) call' rfl
    cases call with
    | element depth s => exact .element h hcalls
    | children depth tag s => exact .children hcalls

/-! ## How deep the elements nest that are read -/

/-- The depth of the elements that a call reads. -/
def Call.depth : Call → Nat
  | .element depth _ => depth
  | .children depth _ _ => depth + 1

theorem depthOf_le_iff {cs : List Node} {n : Nat} : depthOf cs ≤ n ↔ ∀ c ∈ cs, c.depth ≤ n := by
  induction cs with
  | nil => simp [depthOf]
  | cons c cs ih => rw [depthOf, Nat.max_le, ih, List.forall_mem_cons]

/-- The nodes that a call reads end above a limit. -/
def EndAbove (limit : Nat) (call : Call) (ns : List Node) : Prop := ∀ n ∈ ns, call.depth + n.depth ≤ limit + 1

section
variable {limit d : Nat} {call : Call} {ns : List Node} {r : List Char}

theorem read_depth (h : call.read limit = .ok (ns, r)) : EndAbove limit call ns := by
  induction hsize : call.size using Nat.strong_induction_on generalizing call ns r with
  | _ size ih =>
    have hcalls : ∀ {call' ns' r'}, Calls limit call call' → call'.read limit = .ok (ns', r') → EndAbove limit call' ns' :=
      fun hstep hread => ih _ (hsize ▸ hstep.size_lt) hread rfl
    cases call with
    | element depth s =>
      rw [read_element] at h
      split at h
      · cases h
      next hdepth =>
      have hle : depth ≤ limit := Nat.not_lt.mp hdepth
      obtain ⟨⟨o, s₁⟩, ho, hrest⟩ := Except.bind_ok h
      dsimp only at hrest
      split at hrest
      · next halone =>
        obtain ⟨rfl, rfl⟩ := Prod.mk.inj (Except.ok.inj hrest)
        simp only [EndAbove, List.forall_mem_singleton, Call.depth, Node.depth, depthOf]
        omega
      · next halone =>
        obtain ⟨⟨cs, s₂⟩, hcs, hlast⟩ := Except.bind_ok hrest
        obtain ⟨rfl, rfl⟩ := Prod.mk.inj (Except.ok.inj hlast)
        have hinner : depthOf cs ≤ limit - depth := depthOf_le_iff.mpr fun c hc => by
          have := hcalls (.inside hle ho (Bool.eq_false_iff.mpr halone)) hcs c hc
          simp only [Call.depth] at this
          omega
        simp only [EndAbove, List.forall_mem_singleton, Call.depth, Node.depth]
        omega
    | children depth tag s =>
      cases next s with
      | nothing hskip =>
        rw [read_end hskip] at h
        cases h
      | closing r hskip =>
        rw [read_closing hskip] at h
        obtain ⟨rfl, -⟩ := closing_takes h
        exact List.forall_mem_nil _
      | group r hskip =>
        rw [read_group hskip] at h
        obtain ⟨⟨g, s₁⟩, hg, hrest⟩ := Except.bind_ok h
        have hafter := hcalls (.group hskip hg) hrest
        exact hafter
      | element r hskip hslash =>
        rw [read_child hskip hslash] at h
        obtain ⟨⟨child, s₁⟩, hchild, hrest⟩ := Except.bind_ok h
        obtain ⟨⟨others, s₂⟩, hothers, hlast⟩ := Except.bind_ok hrest
        obtain ⟨rfl, rfl⟩ := Prod.mk.inj (Except.ok.inj hlast)
        have hinner := hcalls (.child hskip hslash) hchild
        have hafter := hcalls (.after hskip hslash hchild) hothers
        exact List.forall_mem_append.mpr ⟨hinner, hafter⟩

/-- Where an element is entered and all is read, the nodes nest as deep as the element. -/
theorem exists_deep (hdeep : Deeper limit d call) (h : call.read limit = .ok (ns, r)) :
    ∃ n ∈ ns, d + 1 < call.depth + n.depth := by
  obtain ⟨depth, s, hpath, hd⟩ := hdeep
  induction hpath using ReflTransGen.head_induction_on generalizing ns r with
  | refl =>
    obtain ⟨⟨n, s₁⟩, hn, hlast⟩ := Except.bind_ok h
    obtain ⟨rfl, rfl⟩ := Prod.mk.inj (Except.ok.inj hlast)
    refine ⟨n, List.mem_singleton_self n, ?_⟩
    have : 0 < n.depth := by cases n; exact Nat.succ_pos _
    simp only [Call.depth]
    omega
  | head hstep _ ih =>
    cases hstep with
    | inside hdepth ho halone =>
      rw [read_element, if_neg (Nat.not_lt.mpr hdepth), ho] at h
      simp only [ok_bind, halone, Bool.false_eq_true, if_false] at h
      obtain ⟨⟨cs, s₂⟩, hcs, hlast⟩ := Except.bind_ok h
      obtain ⟨rfl, rfl⟩ := Prod.mk.inj (Except.ok.inj hlast)
      obtain ⟨c, hc, hlt⟩ := ih hcs
      refine ⟨_, List.mem_singleton_self _, ?_⟩
      have hle : c.depth ≤ depthOf cs := depthOf_le_iff.mp (Nat.le_refl _) c hc
      simp only [Call.depth, Node.depth] at hlt ⊢
      omega
    | group hskip hg =>
      rw [read_group hskip, hg] at h
      exact ih h
    | child hskip hslash =>
      rw [read_child hskip hslash] at h
      obtain ⟨⟨child, s₁⟩, hchild, hrest⟩ := Except.bind_ok h
      obtain ⟨⟨others, s₂⟩, -, hlast⟩ := Except.bind_ok hrest
      obtain ⟨rfl, -⟩ := Prod.mk.inj (Except.ok.inj hlast)
      obtain ⟨n, hn, hlt⟩ := ih hchild
      exact ⟨n, List.mem_append_left _ hn, hlt⟩
    | after hskip hslash hchild =>
      rw [read_child hskip hslash, hchild, ok_bind] at h
      obtain ⟨⟨others, s₂⟩, hothers, hlast⟩ := Except.bind_ok h
      obtain ⟨rfl, -⟩ := Prod.mk.inj (Except.ok.inj hlast)
      obtain ⟨n, hn, hlt⟩ := ih hothers
      exact ⟨n, List.mem_append_right _ hn, hlt⟩

end

/-! ## Examples -/

/-- Reading an example with a limit enters an element at a depth. -/
def Enters (limit : Nat) (source : String) (depth : Nat) : Prop :=
  ∃ h s t, header source.toList = .ok (h, s) ∧ ReflTransGen (Calls limit) (.element 1 s) (.element depth t)

theorem module_same {limit d : Nat} {source : String} (h : d ≤ limit) (hshallow : ∀ depth, Enters limit source depth → depth ≤ d) :
    module d source.toList = module limit source.toList := by
  rw [module_eq, module_eq]
  refine Except.bind_congr fun (hd, s) hheader => ?_
  have hroot : ¬ Deeper limit d (.element 1 s) := by
    rintro ⟨depth, t, hpath, hlt⟩
    exact absurd (hshallow depth ⟨hd, s, t, hheader, hpath⟩) (Nat.not_le.mpr hlt)
  dsimp only
  rw [single_injective ((exact h _).same hroot)]

theorem module_deep {limit d depth : Nat} {source : String} (h : d ≤ limit) (henters : Enters limit source depth) (hlt : d < depth) :
    module d source.toList = .error (.tooDeep d) := by
  obtain ⟨hd, s, t, hheader, hpath⟩ := henters
  have hroot : element d (s.length + 1) 1 s = .error (.tooDeep d) :=
    single_injective ((exact h _).deep ⟨depth, t, hpath, hlt⟩)
  rw [module_eq, hheader, ok_bind]
  dsimp only
  rw [hroot]
  rfl

theorem root_depth {limit : Nat} {s : List Char} {m : Module} (h : module limit s = .ok m) : m.root.depth ≤ limit := by
  obtain ⟨hd, r, t, -, hroot, -⟩ := module_ok h
  have := read_depth (read_of_element hroot) m.root (List.mem_singleton_self _)
  simp only [Call.depth] at this
  omega

theorem lt_root_depth {limit d depth : Nat} {source : String} {m : Module} (h : module limit source.toList = .ok m)
    (henters : Enters limit source depth) (hlt : d < depth) : d < m.root.depth := by
  obtain ⟨hd, r, t, hheader, hroot, -⟩ := module_ok h
  obtain ⟨hd', r', t', hheader', hpath⟩ := henters
  obtain ⟨rfl, rfl⟩ := Prod.mk.inj (Except.ok.inj (hheader.symm.trans hheader'))
  obtain ⟨n, hn, hdeep⟩ := exists_deep ⟨depth, t', hpath, hlt⟩ (read_of_element hroot)
  obtain rfl := List.mem_singleton.mp hn
  simp only [Call.depth] at hdeep
  omega

/-- The nesting limit is exact. -/
theorem parse_limit {d limit : Nat} (h : d ≤ limit) (source : String) :
    ((∀ depth, Enters limit source depth → depth ≤ d) → parse source d = parse source limit) ∧
      ((∃ depth, Enters limit source depth ∧ d < depth) → parse source d = .error (.tooDeep d)) ∧
      ∀ m, parse source d = .ok m ↔ ∃ limit', d < limit' ∧ parse source limit' = .ok m ∧ m.root.depth ≤ d := by
  refine ⟨fun hshallow => ?_, fun ⟨depth, henters, hlt⟩ => ?_, fun m => ⟨fun hm => ?_, ?_⟩⟩
  · rw [parse, parse, module_same h hshallow]
  · rw [parse, module_deep h henters hlt]
    rfl
  · -- an accepted example enters no deeper element with the next limit either
    have hmodule := Except.mapError_ok hm
    have hshallow : ∀ depth, Enters (d + 1) source depth → depth ≤ d := fun depth henters => by
      by_contra hlt
      rw [module_deep (Nat.le_succ d) henters (Nat.not_le.mp hlt)] at hmodule
      cases hmodule
    refine ⟨d + 1, Nat.lt_succ_self d, ?_, root_depth hmodule⟩
    rw [← hm, parse, parse, module_same (Nat.le_succ d) hshallow]
  · rintro ⟨limit', hlt, hm, hdepth⟩
    have hmodule := Except.mapError_ok hm
    have hshallow : ∀ depth, Enters limit' source depth → depth ≤ d := fun depth henters => by
      by_contra hdeep
      exact absurd (lt_root_depth hmodule henters (Nat.not_le.mp hdeep)) (Nat.not_lt.mpr hdepth)
    rw [← hm, parse, parse, module_same hlt.le hshallow]

/-- An element too deep for one limit, before a closing tag that is wrong for any. -/
def crossed : String := "export default () => <A><B /></C>"

theorem crossed_too_deep :
    1 ≤ 2 ∧ (∃ depth, Enters 2 crossed depth ∧ 1 < depth) ∧ parse crossed 1 = .error (.tooDeep 1) := by
  have hheader : header crossed.toList = .ok (⟨[], false, 0⟩, "<A><B /></C>".toList) := by decide +kernel
  have hopening : opening "<A><B /></C>".toList = .ok (⟨["A"], [], false⟩, "<B /></C>".toList) := by decide +kernel
  have hinside : Calls 2 (.element 1 "<A><B /></C>".toList) (.children 1 ["A"] "<B /></C>".toList) :=
    .inside (by decide) hopening rfl
  have hchild : Calls 2 (.children 1 ["A"] "<B /></C>".toList) (.element 2 "<B /></C>".toList) :=
    .child (by decide) (by decide)
  have henters : Enters 2 crossed 2 := ⟨_, _, _, hheader, .head hinside (.single hchild)⟩
  exact ⟨by decide, ⟨2, henters, by decide⟩, (parse_limit (by decide) crossed).2.1 ⟨2, henters, by decide⟩⟩

example : (match parse crossed 2 with | .error e => some e | .ok _ => none) = some (.mismatchedClose "A" "C" 29) := by
  decide +kernel

end PatternCatalog.Markup
