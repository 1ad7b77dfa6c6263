/-
  PatternCatalog.Proofs.Run.Bundled — pattern ids and the module map of a run with fresh ids.

  The id of a pattern is the digest of its context id: the significant path of its declaration
  file and the name of an export. The significant path forgets an extension, a final `index`,
  steps out of the library root and what stands before an installed package, so two files may
  have the same one, and then patterns of one export name are one to everybody who goes by ids:
  - `run_with_fresh_ids_bundled`: two patterns have one id exactly when they have one context
    id, so that ids differ where context ids do; each implementation exists; and the module map
    consists of one line for the first pattern of each context id, in order, which maps its id to
    its own implementation.
  - `a_file_and_its_index_share_an_id`: a library whose `button.d.ts` and `button/index.d.ts`
    both export a `Button` has two patterns, one id and one line.
-/

import PatternCatalog.Proofs.Bundle
import PatternCatalog.Proofs.Digest
import PatternCatalog.Proofs.Run

namespace PatternCatalog.Run

/-- A pattern with the declaration file that it comes from, as it was read. -/
structure Origin (r : Run) (a : Analysis) (e : PatternEntry) : Prop where
  file : ∃ text, r.fs.read e.declarationPath = .ok text ∧
    let candidate := Candidate.ofFile r.fs r.options a.path (packageTitle a.path a.packageFile)
      ⟨e.declarationPath, Module.parse text⟩
    e.path = candidate.artifactPath ∧
      ∃ x ∈ (Module.parse text).exports, e.pattern.contextId = candidate.id ++ ":" ++ x.exported

/-- What the ids and the module map of a run say of its patterns. -/
structure Bundled (r : Run) (a : Analysis) : Prop where
  origin : ∀ e ∈ a.patterns, r.Origin a e
  ids : ∀ e ∈ a.patterns, ∀ f ∈ a.patterns, e.pattern.id = f.pattern.id ↔ e.pattern.contextId = f.pattern.contextId
  distinct : (a.patterns.map (·.pattern.contextId)).Nodup →
    (a.patterns.map (·.pattern.id)).Nodup ∧ firsts (·.pattern.contextId) a.patterns = a.patterns
  exist : ∀ e ∈ a.patterns, r.fs.exists? e.path = true
  lines : Text.lines a.bundle.toList =
    Bundle.opening :: (firsts (·.pattern.contextId) a.patterns).map (fun e => Bundle.line (bundleEntry e)) ++ [Bundle.closing]
  mapped : ∀ e ∈ firsts (·.pattern.contextId) a.patterns,
    (Text.lines a.bundle.toList).filter (Bundle.mapsId e.pattern.id) = [Bundle.line (bundleEntry e)]

variable {r : Run} {root : Path} {s : Setting} {a : Analysis}

/-! ## Where a pattern comes from -/

theorem Analyzed.origin (h : r.Analyzed root s a) {e : PatternEntry} (he : e ∈ a.patterns) : r.Origin a e := by
  obtain ⟨before, x, after, hxs, hdesc⟩ := h.exists_listing he
  obtain ⟨found, rfl, hparsed⟩ := h.files
  have hx : x ∈ (r.setting a.path a.packageFile found).registered := by
    rw [hxs]
    exact List.mem_append_right _ List.mem_cons_self
  obtain ⟨hcandidate, hexported, -⟩ := Setting.mem_registered _ hx
  obtain ⟨f, hfile, hof⟩ : ∃ f, found[x.key.file]? = some f ∧
      Candidate.ofFile r.fs r.options a.path (packageTitle a.path a.packageFile) f = x.1 := by
    simpa [Run.setting, List.getElem?_map, Option.map_eq_some_iff] using hcandidate
  obtain ⟨text, hread, hmodule⟩ := hparsed f (List.mem_of_getElem? hfile)
  obtain ⟨-, y, hy, hname⟩ := Component.exported_here hexported
  have hf : (⟨f.path, Module.parse text⟩ : SourceFile) = f := by rw [← hmodule]
  have hpath : e.declarationPath = f.path := by
    rw [hdesc.declarationPath, ← hof]
    rfl
  have hat : (r.setting a.path a.packageFile found).library.moduleAt x.key.file = f.module := by
    simp [Run.setting, Library.ofFiles, Library.moduleAt, hfile]
  have hid : (r.setting a.path a.packageFile found).componentContextId x.2 = x.1.id ++ ":" ++ x.2.exportName := by
    unfold Setting.componentContextId Setting.contextId
    rw [Listing.key] at hcandidate
    rw [hcandidate]
    rfl
  refine ⟨text, hpath ▸ hread, ?_⟩
  rw [hpath, hf, hof]
  refine ⟨hdesc.path, y, ?_, ?_⟩
  · rw [← hmodule, ← hat]
    exact hy
  · rw [hdesc.contextId, hid, hname]

/-! ## Ids -/

/-- Without collisions the id of a pattern determines its context id. -/
theorem Analyzed.id_eq_iff (h : r.Analyzed root s a) (hids : r.ids = .fresh r.digest)
    (hd : r.digest.Separates (a.patterns.map (·.pattern.contextId))) {e f : PatternEntry} (he : e ∈ a.patterns)
    (hf : f ∈ a.patterns) : e.pattern.id = f.pattern.id ↔ e.pattern.contextId = f.pattern.contextId := by
  have hid : ∀ g ∈ a.patterns, g.pattern.id = r.digest g.pattern.contextId := by
    intro g hg
    obtain ⟨before, x, after, -, hdesc⟩ := h.exists_listing hg
    rw [hdesc.id, hdesc.contextId, Setting.patternId, h.ids_eq, hids]
    exact Identity.freshPattern_eq _ _
  rw [hid e he, hid f hf]
  exact ⟨fun hde => hd _ (List.mem_map_of_mem he) _ (List.mem_map_of_mem hf) hde, fun hc => by rw [hc]⟩

/-! ## The module map -/

theorem run_with_fresh_ids_bundled (hids : r.ids = .fresh r.digest) (hbundler : r.bundler = Bundle.moduleMap)
    (h : r.analyze root = .ok a) (hd : r.digest.Separates (a.patterns.map (·.pattern.contextId))) : r.Bundled a := by
  obtain ⟨s, hs⟩ := analyze_ok h
  have hid : ∀ e ∈ a.patterns, ∀ f ∈ a.patterns,
      e.pattern.id = f.pattern.id ↔ e.pattern.contextId = f.pattern.contextId :=
    fun e he f hf => hs.id_eq_iff hids hd he hf
  have hbundle := hs.bundle
  rw [hbundler] at hbundle
  obtain ⟨hexist, htext⟩ := Bundle.moduleMap_ok_iff.mp hbundle
  have hne : a.patterns.map bundleEntry ≠ [] := by
    rw [hs.patterns]
    simpa using hs.registered
  have hfirsts : firsts (·.id) (a.patterns.map bundleEntry) =
      (firsts (·.pattern.contextId) a.patterns).map bundleEntry := by
    rw [firsts_map, firsts_congr _ (·.pattern.contextId)]
    exact hid
  have hdistinct : (a.patterns.map (·.pattern.contextId)).Nodup → (a.patterns.map (·.pattern.id)).Nodup := by
    intro hn
    rw [List.Nodup, List.pairwise_map] at hn ⊢
    exact hn.imp_of_mem fun he hf hne hsame => hne ((hid _ he _ hf).mp hsame)
  refine ⟨fun e he => hs.origin he, hid, fun hn => ⟨hdistinct hn, firsts_eq_self _ hn⟩, fun e he => hexist _ (List.mem_map_of_mem he), ?_, fun e he => ?_⟩
  · rw [htext, Bundle.lines_moduleText hne, hfirsts, List.map_map]
    rfl
  · rw [htext]
    refine Bundle.lines_mapping_id (e := bundleEntry e) ?_
    rw [hfirsts]
    exact List.mem_map_of_mem he

/-! ## Files of one significant path -/

/-- A library with a file beside a directory of the same name. -/
def twinFiles : List (Path × String) :=
  [(⟨"/lib/package.json"⟩, "\x7b\x7d"),
   (⟨"/lib/index.d.ts"⟩, "export * from './button';\nexport * from './button/index';\n"),
   (⟨"/lib/button.d.ts"⟩, "export declare const Button: React.FC;\n"), (⟨"/lib/button.js"⟩, ""),
   (⟨"/lib/button/index.d.ts"⟩, "export declare const Button: React.FC;\n"), (⟨"/lib/button/index.js"⟩, "")]

def twins : Run where
  digest := .sha256
  fs := .memory twinFiles

set_option maxRecDepth 100000 in
theorem twins_analysis : ∃ a, twins.analyze ⟨"/lib"⟩ = .ok a ∧
    (a.patterns.map fun e => (e.path.text, e.pattern.contextId, e.pattern.id)) =
      [("/lib/button.js", "button:Button", "f9d4423717b40abc3f8dd2a183dfce8c4a535679a048a83c80d25eff29fe3e12"),
       ("/lib/button/index.js", "button:Button", "f9d4423717b40abc3f8dd2a183dfce8c4a535679a048a83c80d25eff29fe3e12")] := by
  have hstore : FileSystem.storeOf twinFiles =
      [([.root, .name "lib", .name "package.json"], "\x7b\x7d"),
       ([.root, .name "lib", .name "index.d.ts"], "export * from './button';\nexport * from './button/index';\n"),
       ([.root, .name "lib", .name "button.d.ts"], "export declare const Button: React.FC;\n"),
       ([.root, .name "lib", .name "button.js"], ""),
       ([.root, .name "lib", .name "button", .name "index.d.ts"], "export declare const Button: React.FC;\n"),
       ([.root, .name "lib", .name "button", .name "index.js"], "")] := by decide +kernel
  rw [twins, FileSystem.memory_eq hstore]
  refine Except.exists_ok ?_
  decide +kernel

theorem a_file_and_its_index_share_an_id :
    twins.ids = .fresh twins.digest ∧ twins.bundler = Bundle.moduleMap ∧ ∃ a, twins.analyze ⟨"/lib"⟩ = .ok a ∧
      twins.digest.Separates (a.patterns.map (·.pattern.contextId)) ∧ ¬ (a.patterns.map (·.pattern.id)).Nodup := by
  obtain ⟨a, ha, hpatterns⟩ := twins_analysis
  have hcontexts := congrArg (List.map (·.2.1)) hpatterns
  have hids := congrArg (List.map (·.2.2)) hpatterns
  simp only [List.map_map, Function.comp_def, List.map_cons, List.map_nil] at hcontexts hids
  refine ⟨rfl, rfl, a, ha, ?_, ?_⟩
  · rw [hcontexts]
    intro t ht u hu _
    simp_all
  · rw [hids]
    decide

theorem twins_bundled : ∃ a, twins.analyze ⟨"/lib"⟩ = .ok a ∧
    twins.digest.Separates (a.patterns.map (·.pattern.contextId)) ∧ twins.Bundled a := by
  obtain ⟨a, ha, hpatterns⟩ := twins_analysis
  have hcontexts := congrArg (List.map (·.2.1)) hpatterns
  simp only [List.map_map, Function.comp_def, List.map_cons, List.map_nil] at hcontexts
  have hd : twins.digest.Separates (a.patterns.map (·.pattern.contextId)) := by
    rw [hcontexts]
    intro t ht u hu _
    simp_all
  exact ⟨a, ha, hd, run_with_fresh_ids_bundled rfl rfl ha hd⟩

end PatternCatalog.Run
