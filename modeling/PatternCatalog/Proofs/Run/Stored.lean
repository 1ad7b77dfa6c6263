/-
  PatternCatalog.Proofs.Run.Stored — an analysis that is stored and loaded again.

  What a run says beside enum values can always be said in JSON: ordinals fit 64 bits, a default
  value is a word, a text or a finite number, content keeps finite literals only, and the package
  file was JSON to begin with (`Analyzed.stated`, `readPackage_of_analyze`). An enum value is any
  number that an initializer gives, infinite ones included, and these are written as null. So what
  is stored of an analysis is the analysis exactly when its enum values are finite, and as text
  exactly when it also nests no deeper than text is read (`stored_analysis_reads_back`). In
  `an_infinite_enum_value_is_lost` an enum has the value `1e999`.
-/

import PatternCatalog.Proofs.Identity.Assigned
import PatternCatalog.Proofs.Json.Parser
import PatternCatalog.Proofs.Slot.Content

namespace PatternCatalog

open Json (IsSigned)

/-! ## Ordinals -/

theorem Binary64.truncate_isSigned (x : Binary64) : IsSigned x.truncate := by
  have hpow63 : Int.pow 2 63 = 9223372036854775808 := by decide
  rw [IsSigned]
  cases x with
  | nan =>
    rw [truncate]
    omega
  | infinite s =>
    rw [truncate]
    split
    · omega
    · omega
  | finite s m e =>
    dsimp only [truncate]
    omega

namespace EnumOption

theorem ordinalOf_isSigned (index : Nat) : IsSigned (ordinalOf index) := by
  have hpow63 : Int.pow 2 63 = 9223372036854775808 := by decide
  rw [IsSigned]
  unfold ordinalOf
  have hlow : -((18446744073709551616 : Int) / 2) ≤ Int.bmod index 18446744073709551616 := Int.le_bmod (by decide)
  have hhigh : Int.bmod index 18446744073709551616 < ((18446744073709551616 : Int) + 1) / 2 := Int.bmod_lt (by decide)
  omega

theorem valueOf_isSigned (index : Nat) (next : Option Binary64) (init : EnumInit) :
    IsSigned (valueOf index next init).1.2 := by
  cases init with
  | number x =>
    rw [valueOf]
    exact x.truncate_isSigned
  | string _ | none | other =>
    dsimp only [valueOf]
    exact ordinalOf_isSigned index

theorem valuesFrom_isSigned (index : Nat) (next : Option Binary64) (inits : List EnumInit) :
    ∀ v ∈ valuesFrom index next inits, IsSigned v.2 := by
  induction inits generalizing index next with
  | nil => exact fun v hv => nomatch hv
  | cons init inits ih => exact List.forall_mem_cons.mpr ⟨valueOf_isSigned index next init, ih _ _⟩

/-- The ordinals of an enum fit 64 bits, however its members are numbered. -/
theorem ordinal_isSigned {ids : Identity.Strategy} {propertyId : String} {members : List EnumMember} {o : EnumOption}
    (h : o ∈ ofMembers ids propertyId members) : IsSigned o.ordinal := by
  obtain ⟨i, hi⟩ := List.mem_iff_getElem?.mp h
  obtain ⟨m, v, -, hv, rfl⟩ := List.getElem?_zipWith_eq_some.mp hi
  exact valuesFrom_isSigned _ _ _ v (List.mem_of_getElem? hv)

end EnumOption

namespace PropertyKind

theorem ofMember_isSigned {l : Library} {ids : Identity.Strategy} {propertyId : String} (m : Library.MemberRef)
    (doc : Doc.Comment) {o : EnumOption} (h : o ∈ (ofMember l ids propertyId m doc).options) : IsSigned o.ordinal := by
  cases hkind : ofMember l ids propertyId m doc with
  | enum options =>
    rw [hkind] at h
    obtain ⟨type, -, htype⟩ := (ofMember_eq_enum_iff m doc).mp hkind
    obtain ⟨p, members, -, -, -, rfl⟩ := (ofType?_eq_enum_iff ofControl?_ne_enum).mp htype
    exact EnumOption.ordinal_isSigned h
  | _ => rw [hkind] at h; cases h

/-! ## Defaults -/

/-- A default value is a word, a text or a finite number. -/
theorem literalDefault?_isLiteral {kind : PropertyKind} {text : String} {v : Json} (h : kind.literalDefault? text = some v) :
    v.isLiteral = true := by
  unfold literalDefault? at h
  dsimp only at h
  cases kind with
  | boolean =>
    dsimp only at h
    split at h
    · obtain rfl := Option.some.inj h
      rfl
    split at h
    · obtain rfl := Option.some.inj h
      rfl
    · cases h
  | number =>
    obtain ⟨x, hx, rfl⟩ := Option.map_eq_some_iff.mp h
    exact (Option.filter_eq_some_iff.mp hx).2
  | enum options =>
    obtain ⟨o, -, rfl⟩ := Option.map_eq_some_iff.mp h
    rfl
  | string | color | asset | href =>
    obtain rfl := Option.some.inj h
    rfl
  | eventHandler event => cases h
  | unknown typeText => cases h

end PropertyKind

namespace Run

variable {r : Run} {root : Path} {s : Setting} {a : Analysis}

/-! ## What runs see to -/

theorem entryWithContent_isFinite {rs : Registry} {libraryId : String} {g : Registration} {t : Slot}
    (ht : t ∈ (r.entryWithContent s rs libraryId g).pattern.slots) {e : Element} (he : t.defaultValue = some e) :
    e.isFinite = true := by
  obtain ⟨i, hi⟩ := List.mem_iff_getElem?.mp ht
  obtain ⟨slot, source, -, -, rfl⟩ := List.getElem?_zipWith_eq_some.mp hi
  exact Slot.content?_isFinite he

/-- Beside its enum values an entry says only what JSON can say. -/
theorem Analyzed.stated (h : r.Analyzed root s a) {e : PatternEntry} (he : e ∈ a.patterns) : Analysis.Stated e where
  content := by
    rw [h.patterns] at he
    obtain ⟨g, -, rfl⟩ := List.mem_map.mp he
    exact fun t ht c hc => entryWithContent_isFinite ht hc
  defaults := by
    intro p hp v hv
    obtain ⟨m, rfl⟩ := h.exists_member he hp
    obtain ⟨text, -, htext⟩ := Option.bind_eq_some_iff.mp hv
    exact PropertyKind.literalDefault?_isLiteral htext
  ordinals := by
    intro p hp o ho
    obtain ⟨m, rfl⟩ := h.exists_member he hp
    exact PropertyKind.ofMember_isSigned m _ ho

theorem readPackage_of_analyze (h : r.analyze root = .ok a) : r.readPackage root.normalize = .ok a.packageFile := by
  obtain ⟨package, entry, files, hpackage, -, -, hcomplete⟩ := analyze_steps h
  obtain ⟨-, bundle, -, rfl⟩ := complete_ok hcomplete
  exact hpackage

/-- A package file holds only numbers that JSON text can say. -/
theorem readPackage_sayable {package : Json} (h : r.readPackage root = .ok package) : ∀ t ∈ package.scalars, t.Sayable := by
  unfold readPackage at h
  dsimp only at h
  split at h
  · cases h
  · split at h
    · cases h
    · split at h
      · next v hv =>
        obtain rfl := Except.ok.inj h
        exact fun t ht => Json.parse?_sayable hv t (Json.canonical_scalars v ht)
      · cases h

/-! ## Stored and loaded -/

/-- What is written of an analysis is read as the analysis exactly when its enum values are finite. -/
theorem ofJson?_of_analyze (h : r.analyze root = .ok a) :
    Analysis.ofJson? a.toJson.written = if a.isFinite then some a else none := by
  obtain ⟨s, hs⟩ := analyze_ok h
  have hpackage := readPackage_sayable (readPackage_of_analyze h)
  exact Analysis.ofJson?_written (fun e he => hs.stated he) (Json.written_eq_self _ hpackage)

/-- The text of an analysis says what is written of it, unless it nests deeper than text is read. -/
theorem parse?_of_analyze (h : r.analyze root = .ok a) (hnumbers : a.toJson.KeepsNumbers) :
    Json.parse? a.toJson.text = if a.toJson.levels ≤ 127 then some a.toJson.written else none := by
  obtain ⟨s, hs⟩ := analyze_ok h
  have hpackage := readPackage_sayable (readPackage_of_analyze h)
  have hwords := Analysis.toJson_hasWords (fun e he => hs.stated he) (Json.hasWords_of_sayable hpackage)
  refine Json.parse?_text fun t ht => ?_
  -- of all that is written only numbers need their value kept: ordinals and those of the package
  -- file are whole, and enum values, defaults and literals are the floating-point ones
  cases t with
  | int n => exact hwords n ht
  | float x => exact hnumbers x (Json.mem_floats.mpr ht)
  | null | bool b | string s | array items | object fields => trivial

/-- An analysis is loaded from what is stored of it exactly when its enum values are finite, and
from the text of it exactly when that also nests no deeper than text is read. -/
theorem stored_analysis_reads_back (h : r.analyze root = .ok a) (hnumbers : a.toJson.KeepsNumbers) :
    Analysis.ofJson? a.toJson.written = (if a.isFinite then some a else none) ∧
      (Json.parse? a.toJson.text).bind Analysis.ofJson? =
        if a.isFinite ∧ a.toJson.levels ≤ 127 then some a else none := by
  have hstored := ofJson?_of_analyze h
  refine ⟨hstored, ?_⟩
  rw [parse?_of_analyze h hnumbers]
  by_cases hlevels : a.toJson.levels ≤ 127
  · rw [if_pos hlevels, Option.bind_some, hstored]
    simp only [hlevels, and_true]
  · rw [if_neg hlevels, if_neg fun hboth => hlevels hboth.2]
    rfl

/-! ## Numbers and texts in an enum -/

def sizedFiles : List (Path × String) :=
  [(⟨"/lib/package.json"⟩, "\x7b\"name\": \"acme\", \"port\": 8080\x7d"),
   (⟨"/lib/index.d.ts"⟩, "export enum Size \x7b Small = 1.5, Large = 'lg' \x7d\n" ++
     "export interface Props \x7b\n  /** @default Large */\n  size: Size;\n  /**\n   * @default\n   * \x60\x60\x60tsx\n" ++
     "   * export default () => <Button size=\x7b0.25\x7d/>;\n   * \x60\x60\x60\n   */\n  children: React.ReactNode;\n\x7d\n" ++
     "export declare const Button: React.FC<Props>;\n"),
   (⟨"/lib/index.js"⟩, "")]

/-- A component with an enum, a default value and default content. -/
def sized : Run where
  digest := .sha256
  fs := .memory sizedFiles

set_option maxRecDepth 100000 in
theorem sized_analysis : ∃ a, sized.analyze ⟨"/lib"⟩ = .ok a ∧ a.isFinite = true ∧ a.toJson.levels = 9 ∧
    a.toJson.floats = [.ofRatio false 1 4, .ofRatio false 3 2] := by
  have hstore : FileSystem.storeOf sizedFiles =
      [([.root, .name "lib", .name "package.json"], "\x7b\"name\": \"acme\", \"port\": 8080\x7d"),
       ([.root, .name "lib", .name "index.d.ts"], "export enum Size \x7b Small = 1.5, Large = 'lg' \x7d\n" ++
         "export interface Props \x7b\n  /** @default Large */\n  size: Size;\n  /**\n   * @default\n   * \x60\x60\x60tsx\n" ++
         "   * export default () => <Button size=\x7b0.25\x7d/>;\n   * \x60\x60\x60\n   */\n  children: React.ReactNode;\n\x7d\n" ++
         "export declare const Button: React.FC<Props>;\n"),
       ([.root, .name "lib", .name "index.js"], "")] := by decide +kernel
  rw [sized, FileSystem.memory_eq hstore]
  refine Except.exists_ok ?_
  decide +kernel

theorem sized_reads_back : ∃ a, sized.analyze ⟨"/lib"⟩ = .ok a ∧ a.toJson.KeepsNumbers ∧
    Analysis.ofJson? a.toJson.written = some a ∧ (Json.parse? a.toJson.text).bind Analysis.ofJson? = some a := by
  obtain ⟨a, ha, hfinite, hlevels, hfloats⟩ := sized_analysis
  have hkept : ∀ x ∈ a.toJson.floats, Json.keepsValue x = true := by
    rw [hfloats]
    decide +kernel
  have hnumbers : a.toJson.KeepsNumbers := fun x hx _ => Json.parse?_of_keepsValue (hkept x hx)
  obtain ⟨hstored, htext⟩ := stored_analysis_reads_back ha hnumbers
  rw [if_pos hfinite] at hstored
  rw [if_pos ⟨hfinite, by omega⟩] at htext
  exact ⟨a, ha, hnumbers, hstored, htext⟩

/-! ## An enum value that is infinite -/

def overflowingFiles : List (Path × String) :=
  [(⟨"/lib/package.json"⟩, "\x7b\"name\":\"acme\"\x7d"),
   (⟨"/lib/index.d.ts"⟩, "export enum Size \x7b Huge = 1e999 \x7d\nexport interface Props \x7b size: Size; \x7d\n" ++
     "export declare const Button: React.FC<Props>;\n"),
   (⟨"/lib/index.js"⟩, "")]

def overflowing : Run where
  digest := .sha256
  fs := .memory overflowingFiles

set_option maxRecDepth 100000 in
theorem overflowing_analysis : ∃ a, overflowing.analyze ⟨"/lib"⟩ = .ok a ∧ a.isFinite = false ∧
    a.toJson.floats = [.infinite false] := by
  have hstore : FileSystem.storeOf overflowingFiles =
      [([.root, .name "lib", .name "package.json"], "\x7b\"name\":\"acme\"\x7d"),
       ([.root, .name "lib", .name "index.d.ts"],
         "export enum Size \x7b Huge = 1e999 \x7d\nexport interface Props \x7b size: Size; \x7d\n" ++
         "export declare const Button: React.FC<Props>;\n"),
       ([.root, .name "lib", .name "index.js"], "")] := by decide +kernel
  rw [overflowing, FileSystem.memory_eq hstore]
  refine Except.exists_ok ?_
  decide +kernel

/-- Every finite number keeps its value, and yet the analysis cannot be loaded again. -/
theorem an_infinite_enum_value_is_lost : ∃ a, overflowing.analyze ⟨"/lib"⟩ = .ok a ∧ a.toJson.KeepsNumbers ∧
    Analysis.ofJson? a.toJson.written = none ∧ (Json.parse? a.toJson.text).bind Analysis.ofJson? = none := by
  obtain ⟨a, ha, hinfinite, hfloats⟩ := overflowing_analysis
  have hnumbers : a.toJson.KeepsNumbers := by
    intro x hx hfinite
    rw [hfloats] at hx
    obtain rfl := List.mem_singleton.mp hx
    cases hfinite
  have hstored := ofJson?_of_analyze ha
  rw [if_neg (by simp [hinfinite])] at hstored
  refine ⟨a, ha, hnumbers, hstored, ?_⟩
  rw [parse?_of_analyze ha hnumbers]
  split
  · exact hstored
  · rfl

end Run

end PatternCatalog
