/-
  PatternCatalog.Proofs.Growth.Kinds — the enum options of a kept property.

  The walks that classify a type are bounded by the size of the library. In a later version the
  bound is higher (`typeNodes_le`), and a walk that came to an answer within the lower bound
  comes to the same one within the higher (`normalize?_place`, `consistsOf?_place`). So a member
  that was an enum property still is one, with the options of the same enum (`ofMember_enum`).
-/

import PatternCatalog.Proofs.Growth.Members
import PatternCatalog.Proofs.Identity.Assigned
import PatternCatalog.Proofs.Labels.Kinds

namespace PatternCatalog

namespace TypeExpr

theorem nodes_moved (g : Nat → Nat) (t : TypeExpr) : (t.moved g).nodes = t.nodes := by rw [moved_eq, nodes_relabeled]

end TypeExpr

namespace Library.Grows

variable {P : Placement} {l l' : Library} (h : Grows P l l')

include h

theorem aliasNodes_le (file index : Nat) :
    ((l.moduleAt file).declarations.map (·.aliasNodes)).getD index 0 ≤
      ((l'.moduleAt (P.file file)).declarations.map (·.aliasNodes)).getD (P.index file index) 0 := by
  cases hd : (l.moduleAt file).declarations[index]? with
  | none => simp [hd]
  | some d =>
    obtain ⟨d', hd', -, -, hkind⟩ := h.declared ⟨file, index⟩ d hd
    have hd'' : (l'.moduleAt (P.file file)).declarations[P.index file index]? = some d' := hd'
    have hnodes : d'.aliasNodes = d.aliasNodes := by
      rw [Declaration.aliasNodes, Declaration.aliasNodes, hkind]
      rcases d.kind with _ | type | _ | _ | _ | _
      · rfl
      · exact TypeExpr.nodes_moved _ type
      all_goals rfl
    simp [hd, hd'', hnodes]

omit h in
theorem aliasNodes_of_file (l : Library) (file : Nat) :
    (l.files.map fun f => total (f.module.declarations.map (·.aliasNodes))).getD file 0 =
      total ((l.moduleAt file).declarations.map (·.aliasNodes)) := by
  unfold moduleAt
  cases hf : l.files[file]? with
  | none => simp [hf, total]
  | some f => simp [hf]

/-- More declarations make for longer walks. -/
theorem typeNodes_le (file : Nat) (t : TypeExpr) : l.typeNodes t ≤ l'.typeNodes (t.moved (P.start file)) := by
  have hfiles : ∀ f, (l.files.map fun f => total (f.module.declarations.map (·.aliasNodes))).getD f 0 ≤
      (l'.files.map fun f => total (f.module.declarations.map (·.aliasNodes))).getD (P.file f) 0 := by
    intro f
    rw [aliasNodes_of_file, aliasNodes_of_file]
    exact total_le_total P.index_inj (h.aliasNodes_le f)
  have hsum := total_le_total P.file_inj hfiles
  rw [typeNodes, typeNodes, TypeExpr.nodes_moved]
  omega

end Library.Grows

/-! ## Walks with more fuel -/

namespace Library

variable {P : Placement} {l l' : Library}

theorem properParts_moved (g : Nat → Nat) (parts : List TypeExpr) :
    properParts (parts.map (TypeExpr.moved g)) = (properParts parts).map (TypeExpr.moved g) := by
  rw [TypeExpr.moved_eq, properParts_relabeled]

theorem Mentions.part {p : Place} {parts : List TypeExpr} {t : TypeExpr} (h : l.Mentions p)
    (htype : p.type = .union parts) (ht : t ∈ properParts parts) : l.Mentions ⟨p.file, t⟩ := by
  refine h.subterm ?_
  rw [htype]
  exact List.mem_cons_of_mem _ (TypeExpr.mem_subtermsOf (List.mem_filter.mp ht).1)

namespace Grows

variable (h : Grows P l l')

include h

theorem normalize?_place {d d' : Nat} (hd : d ≤ d') {p q : Place} (hp : l.Mentions p) (hq : l.normalize? d p = some q) :
    l'.normalize? d' (P.place p) = some (P.place q) ∧ l.Mentions q := by
  induction d generalizing d' p with
  | zero => cases hq
  | succ d ih =>
    obtain ⟨d', rfl⟩ : ∃ n, d' = n + 1 := ⟨d' - 1, by omega⟩
    rw [normalize?] at hq ⊢
    have hr := mentions_of_resolveAlias hp
    rw [h.resolveAlias_place hp]
    generalize l.resolveAlias p = r at hq hr ⊢
    obtain ⟨file, type⟩ := r
    cases type with
    | union parts =>
      have hparts := properParts_moved (P.start file) parts
      simp only [Placement.place, TypeExpr.moved, TypeExpr.movedAll_eq, hparts] at hq ⊢
      have hmem : ∀ t ∈ properParts parts, l.Mentions ⟨file, t⟩ := fun t ht => hr.part rfl ht
      rcases hcase : properParts parts with _ | ⟨only, _ | ⟨second, rest⟩⟩
      · rw [hcase] at hq
        cases hq
        exact ⟨by simp [TypeExpr.moved], hr⟩
      · rw [hcase] at hq
        exact ih (by omega) (hmem only (by rw [hcase]; exact List.mem_cons_self)) hq
      · rw [hcase] at hq
        cases hq
        exact ⟨by simp [TypeExpr.moved], hr⟩
    | _ =>
      cases hq
      exact ⟨rfl, hr⟩

theorem mapM_normalize?_place {d d' : Nat} (hd : d ≤ d') {file : Nat} {ts : List TypeExpr}
    (hts : ∀ t ∈ ts, l.Mentions ⟨file, t⟩) {qs : List Place}
    (hqs : (ts.mapM fun t => l.normalize? d ⟨file, t⟩) = some qs) :
    ((ts.map (TypeExpr.moved (P.start file))).mapM fun t => l'.normalize? d' ⟨P.file file, t⟩) = some (qs.map P.place) ∧
      ∀ q ∈ qs, l.Mentions q := by
  induction ts generalizing qs with
  | nil =>
    cases hqs
    exact ⟨rfl, fun q hq => nomatch hq⟩
  | cons t ts ih =>
    rw [List.mapM_cons] at hqs
    obtain ⟨q, hq, hqs⟩ := Option.bind_eq_some_iff.mp hqs
    obtain ⟨rest, hrest, hqs⟩ := Option.bind_eq_some_iff.mp hqs
    cases hqs
    obtain ⟨hq', hmention⟩ := h.normalize?_place hd (hts t List.mem_cons_self) hq
    obtain ⟨hrest', hmentions⟩ := ih (fun u hu => hts u (List.mem_cons_of_mem _ hu)) hrest
    refine ⟨?_, fun p hp => ?_⟩
    · rw [List.map_cons, List.mapM_cons, hrest']
      simp only [Placement.place] at hq'
      rw [hq']
      rfl
    · rcases List.mem_cons.mp hp with rfl | hp
      · exact hmention
      · exact hmentions p hp

omit h in
theorem allM_place {check check' : Place → Option Bool} {qs : List Place}
    (hcheck : ∀ q ∈ qs, ∀ b, check q = some b → check' (P.place q) = some b) {b : Bool} (hqs : qs.allM check = some b) :
    (qs.map P.place).allM check' = some b := by
  induction qs with
  | nil => exact hqs
  | cons q qs ih =>
    rw [List.allM] at hqs
    obtain ⟨c, hc, hqs⟩ := Option.bind_eq_some_iff.mp hqs
    rw [List.map_cons, List.allM, hcheck q List.mem_cons_self c hc]
    cases c with
    | false => exact hqs
    | true => exact ih (fun p hp => hcheck p (List.mem_cons_of_mem _ hp)) hqs

theorem consistsOf?_place {test : TypeExpr → Bool} (htest : ∀ g t, test (TypeExpr.moved g t) = test t) {d d' : Nat}
    (hd : d ≤ d') {p : Place} (hp : l.Mentions p) {b : Bool} (hb : l.consistsOf? test d p = some b) :
    l'.consistsOf? test d' (P.place p) = some b := by
  induction d generalizing d' p b with
  | zero => cases hb
  | succ d ih =>
    obtain ⟨d', rfl⟩ : ∃ n, d' = n + 1 := ⟨d' - 1, by omega⟩
    obtain ⟨file, type⟩ := p
    have hparts : ∀ parts, type = .union parts → ∀ t ∈ properParts parts, l.Mentions ⟨file, t⟩ :=
      fun parts htype t ht => hp.part htype ht
    have hmoved := htest (P.start file) type
    cases type with
    | union parts =>
      rw [consistsOf?] at hb
      obtain ⟨qs, hqs, hall⟩ := Option.bind_eq_some_iff.mp hb
      have hle : d ≤ d' := by omega
      obtain ⟨hqs', hmentions⟩ := h.mapM_normalize?_place hle (hparts parts rfl) hqs
      simp only [Placement.place, TypeExpr.moved, TypeExpr.movedAll_eq, consistsOf?, properParts_moved]
      rw [hqs']
      exact allM_place (fun q hq c hc => ih hle (hmentions q hq) hc) hall
    | _ => exact hb ▸ congrArg some hmoved

end Grows

/-! ## Enums -/

theorem isBoolean_moved (g : Nat → Nat) (t : TypeExpr) : (t.moved g).isBoolean = t.isBoolean := by
  rw [TypeExpr.moved_eq, TypeExpr.isBoolean_relabeled]

end Library

theorem EnumOption.members?_place {P : Placement} {l l' : Library} (h : l.Grows P l') {p : Library.Place}
    (hp : l.Mentions p) {ms : List EnumMember} (hms : members? l p = some ms) : members? l' (P.place p) = some ms := by
  unfold members? at hms ⊢
  rw [h.references p hp]
  split at hms
  · next key href =>
    obtain ⟨k, hk, hk'⟩ := h.reference?_kind href
    rw [href]
    simp only [Option.map_some, Placement.symbol, hk']
    rw [hk] at hms
    cases k with
    | enum members => exact hms
    | _ => cases hms
  · cases hms

/-- A kept member that was an enum property is one of the same enum. -/
theorem PropertyKind.ofMember_enum {P : Placement} {l l' : Library} (h : l.Grows P l') {m : Library.MemberRef}
    (hm : l.Declares m) (doc : Doc.Comment) {ids : Identity.Strategy} {id : String} {options : List EnumOption}
    (hkind : ofMember l ids id m doc = .enum options) :
    ∃ members, options = EnumOption.ofMembers ids id members ∧ ∀ ids' id',
      ofMember l' ids' id' (P.memberRef m) doc = .enum (EnumOption.ofMembers ids' id' members) := by
  obtain ⟨type, htype, hof⟩ := (ofMember_eq_enum_iff m doc).mp hkind
  obtain ⟨p, members, hnormal, hboolean, hmembers, rfl⟩ := (ofType?_eq_enum_iff ofControl?_ne_enum).mp hof
  have hle : walkDepth l type ≤ walkDepth l' (type.moved (P.start m.file)) := by
    have hnodes := h.typeNodes_le m.file type
    unfold walkDepth
    omega
  obtain ⟨hnormal', hp⟩ := h.normalize?_place hle (hm.mentions htype) hnormal
  have hboolean' := h.consistsOf?_place Library.isBoolean_moved hle hp hboolean
  have hmembers' := EnumOption.members?_place h hp hmembers
  refine ⟨members, rfl, fun ids' id' => (ofMember_eq_enum_iff _ doc).mpr ⟨type.moved (P.start m.file), ?_, ?_⟩⟩
  · exact congrArg (Option.map _) htype
  · exact (ofType?_eq_enum_iff ofControl?_ne_enum).mpr ⟨P.place p, members, hnormal', hboolean', hmembers', rfl⟩

end PatternCatalog
