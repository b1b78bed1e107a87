import EnvReads.Proofs.ModuleReferences
import EnvReads.Proofs.SameLayout
import EnvReads.Proofs.ScanDecomposition

/-!
# Modules are followed one hop

Resolution of a key in a file looks at that file and, if modules are followed, into the modules that
the file itself refers to (`SourceUnit.RefersTo`), and at nothing else:

* no module that these refer to in turn is asked for, so cycles of modules do no harm;
* sites that end a chain are in the file or in a module that it refers to;
* the evidence is the same in all sessions in which files and directories are the same and those
  modules have the same trees.
-/

namespace EnvReads

/-! ## Which modules are asked for -/

/-- One hop needs of the loader what it has of the module entered. -/
theorem Enter.hops_congr_at {load load' : Loader} {target : Path} (h : load target = load' target)
    (q : ExportPath) : Enter.hops load 1 target q = Enter.hops load' 1 target q := by
  simp only [Enter.hops, h]

namespace Resolver

variable (r : Resolver) (unit : SourceUnit)

/-- The modules that are looked into for the declarations of a path. -/
def entered (files : FileSystem) (p : StaticPath) (declarations : List Node) : List Path :=
  if r.followModules then
    declarations.filterMap fun d =>
      (d.declarationOrigin? p).toOption.join.bind (·.entered? files unit.path)
  else
    []

/-- The modules that are looked into for a key. -/
def asked (files : FileSystem) (key : Node) : List Path :=
  match key.staticPath? with
  | .ok (some p) =>
    match unit.tree.declarationsOf p with
    | .ok declarations => entered r unit files p declarations
    | .error _ => []
  | _ => []

end Resolver

namespace Origin

/-- The sites of an origin depend on what the module has that is looked into for it. -/
theorem sites_congr_at {e e' : Enter} {path : Path} {o : Origin} {s : Session}
    (h : ∀ target p, o.entered? s.files path = some target → e target p s = e' target p s) :
    o.sites e path s = o.sites e' path s := by
  cases o with
  | nothing | literal _ _ | unknown _ => rfl
  | imported specifier keys place =>
      refine Run.bind_congr_at rfl ?_
      intro found t located
      cases found with
      | none => rfl
      | some target =>
          cases keys with
          | nil => rfl
          | cons key keys =>
              cases specifier with
              | none => cases located
              | some specifier =>
                  obtain ⟨lookup, rfl⟩ := raise_apply_eq_ok_iff.mp located
                  refine Run.bind_congr_at (h target ⟨key, keys⟩ ?_) fun _ _ _ => rfl
                  simp [entered?, lookup, Except.toOption]

end Origin

namespace Resolver

variable {load : Loader} {r : Resolver} {unit : SourceUnit} {p : StaticPath}

/-- The modules that declarations lead into, if modules are followed. -/
theorem mem_entered_iff {files : FileSystem} {ds : List Node} {target : Path} :
    target ∈ r.entered unit files p ds ↔ r.followModules ∧ ∃ d ∈ ds, ∃ o,
      d.declarationOrigin? p = .ok (some o) ∧ o.entered? files unit.path = some target := by
  rw [entered]
  split
  · next follow =>
      simp only [follow, true_and, List.mem_filterMap, Option.bind_eq_some_iff,
        Option.join_eq_some_iff, Except.toOption_eq_some_iff]
  · next named => simp [named]

/-- Another loader gives the same for a declaration if it loads alike what the declaration leads
into. -/
theorem declarationEvidence_eq_at {s : Session} {d : Node}
    (h : ∀ target ∈ r.entered unit s.files p [d], load target = Run.loadModule target) :
    r.declarationEvidence load unit p d s = r.declarationEvidence Run.loadModule unit p d s := by
  refine Run.bind_congr_at rfl ?_
  intro found t raised
  obtain ⟨origin, rfl⟩ := raise_apply_eq_ok_iff.mp raised
  cases found with
  | none => rfl
  | some o =>
      refine Run.bind_congr_at (Origin.sites_congr_at ?_) fun _ _ _ => rfl
      intro target q entered
      rw [enter, enter]
      split
      · next follow =>
          have asked := mem_entered_iff.mpr ⟨follow, d, .head [], o, origin, entered⟩
          exact congrFun (Enter.hops_congr_at (h target asked) q) _
      · rfl

/-- Another loader gives the same for several declarations. -/
theorem evidence_eq_at {s : Session} {ds : List Node}
    (h : ∀ target ∈ r.entered unit s.files p ds, load target = Run.loadModule target) :
    r.evidence load unit p ds s = r.evidence Run.loadModule unit p ds s := by
  induction ds generalizing s with
  | nil => rfl
  | cons d rest ih =>
      have here : r.declarationEvidence load unit p d s =
          r.declarationEvidence Run.loadModule unit p d s := by
        refine declarationEvidence_eq_at fun target mem => h target ?_
        obtain ⟨follow, d', inside, entered⟩ := mem_entered_iff.mp mem
        rw [List.mem_singleton.mp inside] at entered
        exact mem_entered_iff.mpr ⟨follow, d, .head rest, entered⟩
      refine Run.bind_congr_at here ?_
      intro e t run
      -- Declarations only read, so modules are still located among the same files.
      have files : t.files = s.files := by
        have after := (Run.eq_ok_iff.mp (here ▸ run)).2
        rw [← after]
        exact ((r.reads_declarationEvidence unit p d).alike s).files
      refine Run.bind_congr_at (ih fun target mem => h target ?_) fun _ _ _ => rfl
      obtain ⟨follow, d', inside, entered⟩ := mem_entered_iff.mp mem
      exact mem_entered_iff.mpr ⟨follow, d', .tail d inside, files ▸ entered⟩

variable {key : Node}

/-- At most one module is asked for by each declaration. -/
theorem length_asked_le {files : FileSystem} {ds : List Node}
    (path : key.staticPath? = .ok (some p))
    (declared : unit.tree.declarationsOf p = .ok ds) :
    (r.asked unit files key).length ≤ ds.length := by
  simp only [asked, path, declared, entered]
  split
  · exact List.length_filterMap_le _ ds
  · exact Nat.zero_le _

/-- Only modules that the file refers to are asked for. -/
theorem refersTo_of_mem_asked {files : FileSystem} {target : Path}
    (h : target ∈ r.asked unit files key) : r.followModules ∧ unit.RefersTo files target := by
  rw [asked] at h
  split at h
  · split at h
    · next declared =>
        obtain ⟨follow, d, mem, o, origin, entered⟩ := mem_entered_iff.mp h
        have inside := Node.mem_walk_of_mem_declarationsOf declared mem
        exact ⟨follow, SourceUnit.refersTo_of_declarationOrigin? inside origin entered⟩
    · cases h
  · cases h

/-- Another loader gives the same for a key if it loads alike what is asked for. -/
theorem resolveThrough_eq_at {s : Session}
    (h : ∀ target ∈ r.asked unit s.files key, load target = Run.loadModule target) :
    r.resolveThrough load unit key s = r.resolve unit key s := by
  refine Run.bind_congr_at rfl ?_
  intro found t raised
  obtain ⟨path, rfl⟩ := raise_apply_eq_ok_iff.mp raised
  cases found with
  | none => rfl
  | some p =>
      refine Run.bind_congr_at rfl ?_
      intro ds t' raised
      obtain ⟨declared, rfl⟩ := raise_apply_eq_ok_iff.mp raised
      cases ds with
      | nil => rfl
      | cons d rest =>
          refine evidence_eq_at fun target mem => h target ?_
          rw [asked, path]
          simp only [declared]
          exact mem

end Resolver

/-! ## Where chains end -/

namespace Session

/-- The session knows modules by their own paths. -/
def Keyed (s : Session) : Prop :=
  ∀ path unit, s.answer path = .ok (some unit) → unit.path = path

/-- What the parsers made of a module, as far as the session has it. -/
def treeAt (s : Session) (path : Path) : Except Fault (Option Node) :=
  (s.answer path).map (Option.map SourceUnit.tree)

theorem Keyed.of_alike {s t : Session} (h : s.Keyed) (same : Alike t s) : t.Keyed := by
  intro path unit answered
  exact h path unit (same.answer ▸ answered)

end Session

/-- A module that is loaded has the path that it was loaded from. -/
theorem SourceUnit.path_of_loadModule {fs : FileSystem} {path : Path} {unit : SourceUnit}
    (h : loadModule fs path = .ok (some unit)) : unit.path = path := by
  rw [loadModule] at h
  split at h
  · cases h
  · obtain ⟨there, -, h⟩ := Except.bind_eq_ok_iff.mp h
    split at h
    · split at h
      · next loaded =>
          cases h
          exact path_of_load loaded
      · cases h
      · cases h
    · cases h

theorem FileSystem.keyed_session (fs : FileSystem) : fs.session.Keyed := by
  intro path unit answered
  exact SourceUnit.path_of_loadModule answered

namespace Session

/-- A unit that is added is the answer at its path. -/
theorem answer_addModule (s : Session) (unit : SourceUnit) (path : Path) :
    ((Run.addModule unit).after s).answer path =
      if path = unit.path then .ok (some unit) else s.answer path := by
  change answer { s with modules := s.modules.add unit.path unit } path = _
  split
  · next same => simp [answer, Cache.add, Cache.find?_insert, same]
  · next differs => simp [answer, Cache.add, Cache.find?_insert, differs]

/-- Units are added under their own paths. -/
theorem Keyed.addModule {s : Session} (h : s.Keyed) (unit : SourceUnit) :
    ((Run.addModule unit).after s).Keyed := by
  intro path found answered
  rw [answer_addModule] at answered
  split at answered
  · next same =>
      cases answered
      exact same.symm
  · exact h path found answered

end Session

/-- The sites of an origin: module references, sites in the file, and what the module gives that is
looked into. -/
theorem Origin.mem_sites {enter : Enter} {path : Path} {o : Origin} {s : Session}
    {sites : List Site}
    {site : Site} (h : (o.sites enter path).result s = .ok sites) (mem : site ∈ sites) :
    site.kind = .moduleReference ∨ site.filename = some path ∨ ∃ target p more,
      o.entered? s.files path = some target ∧ (enter target p).result s = .ok more ∧
        site ∈ more := by
  cases o with
  | nothing =>
      cases h
      cases mem
  | literal value place | unknown place =>
      obtain ⟨span, -, given⟩ := Run.result_raise_bind_eq_ok_iff.mp h
      cases given
      cases List.mem_singleton.mp mem
      exact .inr (.inl rfl)
  | imported specifier keys place =>
      obtain ⟨found, located, h⟩ := Run.result_bind_eq_ok_iff.mp h
      cases found with
      | none =>
          obtain ⟨span, -, given⟩ := Run.result_raise_bind_eq_ok_iff.mp h
          cases given
          cases List.mem_singleton.mp mem
          exact .inr (.inl rfl)
      | some target =>
          cases keys with
          | nil =>
              cases h
              cases List.mem_singleton.mp mem
              exact .inl rfl
          | cons key keys =>
              obtain ⟨more, looked, given⟩ := Run.result_bind_eq_ok_iff.mp h
              cases given
              cases mem with
              | head => exact .inl rfl
              | tail _ mem =>
                  cases specifier with
                  | none => cases located
                  | some specifier =>
                      rw [Origin.result_locate] at located
                      rw [Origin.after_locate] at looked
                      refine .inr (.inr ⟨target, ⟨key, keys⟩, more, ?_, looked, mem⟩)
                      simp [entered?, located, Except.toOption]

/-- The sites of exported values are in the module or refer to another. -/
theorem filename_of_mem_exportSites {unit : SourceUnit} {values : List (Option Node × List Value)}
    {s : Session} {sites : List Site} {site : Site}
    (h : (exportSites Enter.never unit values).result s = .ok sites) (mem : site ∈ sites) :
    site.kind = .moduleReference ∨ site.filename = some unit.path := by
  induction values generalizing s sites with
  | nil =>
      cases h
      cases mem
  | cons entry rest ih =>
      obtain ⟨value, keys⟩ := entry
      obtain ⟨o, -, h⟩ := Run.result_raise_bind_eq_ok_iff.mp h
      obtain ⟨here, first, h⟩ := Run.result_bind_eq_ok_iff.mp h
      obtain ⟨more, later, h⟩ := Run.result_bind_eq_ok_iff.mp h
      cases h
      rcases List.mem_append.mp mem with mem | mem
      · rcases Origin.mem_sites first mem with named | here | ⟨_, _, _, -, missing, mem⟩
        · exact .inl named
        · exact .inr here
        · cases missing
          cases mem
      · exact ih later mem

namespace Resolver

variable {r : Resolver} {unit : SourceUnit} {p : StaticPath}

/-- A module that is looked into gives sites of its own. -/
theorem filename_of_mem_enter {s : Session} (keyed : s.Keyed) {target : Path} {q : ExportPath}
    {sites : List Site} {site : Site} (h : (r.enter Run.loadModule target q).result s = .ok sites)
    (mem : site ∈ sites) : r.followModules ∧
      (site.kind = .moduleReference ∨ site.filename = some target) := by
  rw [enter] at h
  split at h
  · next follow =>
    refine ⟨follow, ?_⟩
    obtain ⟨found, answered, h⟩ := Run.result_bind_eq_ok_iff.mp h
    rw [(Run.loadModule_eq target s).1] at answered
    cases found with
    | none =>
        cases h
        cases mem
    | some unit' =>
        obtain ⟨values, -, h⟩ := Run.result_raise_bind_eq_ok_iff.mp h
        rw [← keyed target unit' answered]
        exact filename_of_mem_exportSites h mem
  · cases h
    cases mem

/-- The sites of a key are in the file, refer to a module, or are in a module that the file refers
to. -/
theorem filename_of_mem_resolve {s : Session} (keyed : s.Keyed) {key : Node} {e : Evidence}
    (h : (r.resolve unit key).result s = .ok e) {site : Site} (mem : site ∈ e.sites) :
    site.kind = .moduleReference ∨ ∃ path, site.filename = some path ∧
      (path = unit.path ∨ r.followModules ∧ unit.RefersTo s.files path) := by
  obtain ⟨found, path, h'⟩ := Run.result_raise_bind_eq_ok_iff.mp h
  cases found with
  | none =>
      cases h'
      cases mem
  | some p =>
      obtain ⟨ds, declared, gathered⟩ := evidence_of_resolve path h
      obtain ⟨d, inside, e', contributed, mem⟩ := ((mem_sites_of_evidence gathered).2 site).mp mem
      obtain ⟨found, origin, contributed⟩ := Run.result_raise_bind_eq_ok_iff.mp contributed
      cases found with
      | none =>
          obtain ⟨warning, -, given⟩ := Run.result_raise_bind_eq_ok_iff.mp contributed
          cases given
          cases mem
      | some o =>
          obtain ⟨sites, given, same⟩ := Run.result_bind_eq_ok_iff.mp contributed
          cases same
          rcases Origin.mem_sites given mem with
            named | here | ⟨target, q, more, entered, looked, mem⟩
          · exact .inl named
          · exact .inr ⟨unit.path, here, .inl rfl⟩
          · obtain ⟨follow, named | there⟩ := filename_of_mem_enter keyed looked mem
            · exact .inl named
            · have inside := Node.mem_walk_of_mem_declarationsOf declared inside
              have refers := SourceUnit.refersTo_of_declarationOrigin? inside origin entered
              exact .inr ⟨target, there, .inr ⟨follow, refers⟩⟩

end Resolver

/-! ## Non-interference -/

/-- Sessions that resolution in a file cannot tell apart: what modules hold counts only if modules
are followed and the file refers to them. -/
structure Session.Indistinct (r : Resolver) (unit : SourceUnit) (s t : Session) : Prop where
  layout : s.files.SameLayout t.files
  dumps : r.debugDir.isSome → s.files.SameOutline t.files
  keyed : s.Keyed
  keyed' : t.Keyed
  trees : r.followModules → ∀ target, unit.RefersTo s.files target →
    s.treeAt target = t.treeAt target

theorem Session.Indistinct.of_alike {r : Resolver} {unit : SourceUnit} {s t s' t' : Session}
    (h : Indistinct r unit s t) (same : Alike s' s) (same' : Alike t' t) :
    Indistinct r unit s' t' where
  layout := by
    rw [same.files, same'.files]
    exact h.layout
  dumps := by
    intro debug
    rw [same.files, same'.files]
    exact h.dumps debug
  keyed := h.keyed.of_alike same
  keyed' := h.keyed'.of_alike same'
  trees := by
    intro follow target refers
    rw [same.files] at refers
    rw [treeAt, treeAt, same.answer, same'.answer]
    exact h.trees follow target refers

/-- The sites of an origin are the same in two sessions if modules are found and entered alike. -/
theorem Origin.result_sites_congr {enter : Enter} {path : Path} {o : Origin} {s t : Session}
    (layout : s.files.SameLayout t.files)
    (h : ∀ target p, o.entered? s.files path = some target →
      (enter target p).result s = (enter target p).result t) :
    (o.sites enter path).result s = (o.sites enter path).result t := by
  cases o with
  | nothing => rfl
  | literal value place | unknown place => exact Run.result_raise_bind_congr fun _ _ => rfl
  | imported specifier keys place =>
      have located : (locate specifier path).result s = (locate specifier path).result t := by
        cases specifier with
        | none => rfl
        | some specifier =>
            rw [result_locate, result_locate, Module.lookup_congr layout]
      refine Run.result_bind_congr located ?_
      intro found given
      rw [after_locate, after_locate]
      cases found with
      | none => exact Run.result_raise_bind_congr fun _ _ => rfl
      | some target =>
          cases keys with
          | nil => rfl
          | cons key keys =>
              cases specifier with
              | none => cases given
              | some specifier =>
                  rw [result_locate] at given
                  refine Run.result_bind_congr (h target ⟨key, keys⟩ ?_) fun _ _ => rfl
                  simp [entered?, given, Except.toOption]

/-- Of its module an export needs the path only. -/
theorem exportSites_congr_path {enter : Enter} {unit unit' : SourceUnit}
    (path : unit.path = unit'.path) (values : List (Option Node × List Value)) :
    exportSites enter unit values = exportSites enter unit' values := by
  induction values with
  | nil => rfl
  | cons entry rest ih => rw [exportSites, exportSites, path, ih]

theorem result_exportSites_congr {unit : SourceUnit} (values : List (Option Node × List Value))
    {s t : Session} (layout : s.files.SameLayout t.files) :
    (exportSites Enter.never unit values).result s =
      (exportSites Enter.never unit values).result t := by
  induction values generalizing s t with
  | nil => rfl
  | cons entry rest ih =>
      obtain ⟨value, keys⟩ := entry
      have never (target : Path) (p : ExportPath) : Run.Reads (Enter.never target p) := .pure []
      rw [exportSites]
      refine Run.result_raise_bind_congr ?_
      intro o _
      refine Run.result_bind_congr (Origin.result_sites_congr layout fun _ _ _ => rfl) ?_
      intro here _
      have files := ((o.reads_sites never unit.path).alike s).files
      have files' := ((o.reads_sites never unit.path).alike t).files
      exact Run.result_bind_congr (ih (by rw [files, files']; exact layout)) fun _ _ => rfl

namespace Resolver

variable {r : Resolver} {unit : SourceUnit} {p : StaticPath} {s t : Session}

/-- What the sessions have of a module: in both the same fault, nothing, or units that differ in
their sources at most. -/
theorem answer_cases (same : s.Indistinct r unit t) (follow : r.followModules) {target : Path}
    (refers : unit.RefersTo s.files target) :
    (∃ fault, s.answer target = .error fault ∧ t.answer target = .error fault) ∨
      (s.answer target = .ok none ∧ t.answer target = .ok none) ∨
      ∃ u u', s.answer target = .ok (some u) ∧ t.answer target = .ok (some u') ∧
        u.path = u'.path ∧ u.tree = u'.tree := by
  have trees := same.trees follow target refers
  rw [Session.treeAt, Session.treeAt] at trees
  cases left : s.answer target with
  | error fault =>
      cases right : t.answer target with
      | error fault' =>
          simp only [left, right, Except.map, Except.error.injEq] at trees
          exact .inl ⟨fault, rfl, by rw [trees]⟩
      | ok found' => simp [left, right, Except.map] at trees
  | ok found =>
      cases right : t.answer target with
      | error fault' => simp [left, right, Except.map] at trees
      | ok found' =>
          simp only [left, right, Except.map, Except.ok.injEq] at trees
          cases found with
          | none =>
              cases found' with
              | none => exact .inr (.inl ⟨rfl, rfl⟩)
              | some u' => cases trees
          | some u =>
              cases found' with
              | none => cases trees
              | some u' =>
                  have path := (same.keyed target u left).trans (same.keyed' target u' right).symm
                  exact .inr (.inr ⟨u, u', rfl, rfl, path, Option.some.inj trees⟩)

/-- A module that the file refers to is entered alike. -/
theorem result_enter_congr (same : s.Indistinct r unit t) {target : Path}
    (refers : unit.RefersTo s.files target) (q : ExportPath) :
    (r.enter Run.loadModule target q).result s = (r.enter Run.loadModule target q).result t := by
  rw [enter]
  split
  · next follow =>
      have layout : ((Run.loadModule target).after s).files.SameLayout
          ((Run.loadModule target).after t).files := by
        rw [(Run.loadModule_eq target s).2.files, (Run.loadModule_eq target t).2.files]
        exact same.layout
      rw [Enter.hops, Run.result_bind, Run.result_bind,
        (Run.loadModule_eq target s).1, (Run.loadModule_eq target t).1]
      rcases answer_cases same follow refers with ⟨fault, left, right⟩ | ⟨left, right⟩ |
        ⟨u, u', left, right, path, tree⟩
      · rw [left, right]
        rfl
      · rw [left, right]
        rfl
      · rw [left, right]
        change Run.result (Fault.raise (u.tree.exports q) >>= exportSites Enter.never u) _ =
          Run.result (Fault.raise (u'.tree.exports q) >>= exportSites Enter.never u') _
        rw [← tree, funext (exportSites_congr_path path)]
        exact Run.result_raise_bind_congr fun values _ => result_exportSites_congr values layout
  · rfl

/-- A declaration contributes the same in two sessions that differ in other modules. -/
theorem result_declarationEvidence_congr (same : s.Indistinct r unit t) {d : Node}
    (mem : d ∈ unit.tree.walk) : (r.declarationEvidence Run.loadModule unit p d).result s =
      (r.declarationEvidence Run.loadModule unit p d).result t := by
  rw [declarationEvidence]
  refine Run.result_raise_bind_congr ?_
  intro found origin
  cases found with
  | none => exact Run.result_raise_bind_congr fun _ _ => rfl
  | some o =>
      refine Run.result_bind_congr (Origin.result_sites_congr same.layout ?_) fun _ _ => rfl
      intro target q entered
      have refers := SourceUnit.refersTo_of_declarationOrigin? mem origin entered
      exact result_enter_congr same refers q

/-- So do several declarations. -/
theorem result_evidence_congr (same : s.Indistinct r unit t) {ds : List Node}
    (mem : ∀ d ∈ ds, d ∈ unit.tree.walk) :
    (r.evidence Run.loadModule unit p ds).result s =
      (r.evidence Run.loadModule unit p ds).result t := by
  induction ds generalizing s t with
  | nil => rfl
  | cons d rest ih =>
      obtain ⟨here, later⟩ := List.forall_mem_cons.mp mem
      rw [evidence]
      refine Run.result_bind_congr (result_declarationEvidence_congr same here) ?_
      intro e _
      have after := same.of_alike ((r.reads_declarationEvidence unit p d).alike s)
        ((r.reads_declarationEvidence unit p d).alike t)
      exact Run.result_bind_congr (ih after later) fun _ _ => rfl

/-- Resolution gives the same in sessions that it cannot tell apart. -/
theorem result_resolve_congr (same : s.Indistinct r unit t) (key : Node) :
    (r.resolve unit key).result s = (r.resolve unit key).result t := by
  rw [resolve]
  refine Run.result_raise_bind_congr ?_
  intro found _
  cases found with
  | none => rfl
  | some p =>
      refine Run.result_raise_bind_congr ?_
      intro ds declared
      cases ds with
      | cons d rest =>
          refine result_evidence_congr same ?_
          intro d' mem
          exact Node.mem_walk_of_mem_declarationsOf declared mem
      | nil =>
          -- The path has to have a text, and the tree may be dumped.
          have reads : Run.Reads (discard (Fault.raise p.dotted)) :=
            (Run.Reads.raise p.dotted).bind fun _ => .pure ()
          refine Run.result_bind_congr ?_ ?_
          · rw [Run.result_discard, Run.result_discard, Run.result_raise, Run.result_raise]
          · intro _ _
            have after := same.of_alike (reads.alike s) (reads.alike t)
            cases debug : r.debugDir with
            | none => rfl
            | some dir =>
                have outline := after.dumps (by rw [debug]; rfl)
                exact Run.result_bind_congr (result_dump_congr outline dir unit) fun _ _ => rfl

/-- Resolution asks for a module that the file refers to at most, one for each declaration, and for
none if modules are not followed; its chains end in the file or in such a module; and nothing else
that files hold, package manifests apart, makes a difference to it. -/
theorem resolve_one_hop (r : Resolver) (unit : SourceUnit) (key : Node) {s : Session}
    (keyed : s.Keyed) :
    (∃ asked : List Path,
      (∀ p ds, key.staticPath? = .ok (some p) → unit.tree.declarationsOf p = .ok ds →
        asked.length ≤ ds.length) ∧
      (∀ target ∈ asked, r.followModules ∧ unit.RefersTo s.files target) ∧
      ∀ load, (∀ target ∈ asked, load target = Run.loadModule target) →
        r.resolveThrough load unit key s = r.resolve unit key s) ∧
    (∀ e, (r.resolve unit key).result s = .ok e →
      ∀ site ∈ e.sites, site.kind ≠ .moduleReference → ∃ path, site.filename = some path ∧
        (path = unit.path ∨ r.followModules ∧ unit.RefersTo s.files path)) ∧
    ∀ t : Session, t.Keyed → s.files.SameLayout t.files →
      (r.debugDir.isSome → s.files.SameOutline t.files) →
      (r.followModules → ∀ target, unit.RefersTo s.files target →
        s.treeAt target = t.treeAt target) →
      (r.resolve unit key).result s = (r.resolve unit key).result t := by
  refine ⟨⟨r.asked unit s.files key, ?_, ?_, ?_⟩, ?_, ?_⟩
  · intro p ds path declared
    exact length_asked_le path declared
  · intro target mem
    exact refersTo_of_mem_asked mem
  · intro load same
    exact resolveThrough_eq_at same
  · intro e resolved site mem ends
    exact (filename_of_mem_resolve keyed resolved mem).resolve_left ends
  · intro t keyed' layout dumps trees
    exact result_resolve_congr ⟨layout, dumps, keyed, keyed', trees⟩ key

end Resolver

namespace Sample

/-- `exports.KEY = require("./other").KEY`. -/
def relay : Node :=
  program [statement
    (assignment (member (name "exports") "KEY") (member (require "./other") "KEY"))]

/-- `main.js` refers to `keys.js`, and that to `other.js`. -/
def relayed : FileSystem where
  entries := [
    .file "main.js" { octets := [], parsed := .estree reader.toValue },
    .file "keys.js" { octets := [], parsed := .estree relay.toValue },
    .file "other.js" { octets := [], parsed := .estree keys.toValue }]
  cwd := "/"

def main : SourceUnit where
  path := "/main.js"
  source := []
  tree := reader

/-- Another `other.js`, which refers back to `keys.js`. -/
def other : SourceUnit where
  path := "/other.js"
  source := []
  tree := reader

/-- `keys.KEY`. -/
def keysKey : Node :=
  Node.make Kind.memberExpression.tag
    [("computed", .bool false), ("object", name "keys"), ("property", name "KEY")]

end Sample

open Sample in
/-- What `other.js` holds makes no difference in `main.js`. -/
theorem Resolver.resolve_one_hop_relayed :
    ∃ e, (resolve { followModules := true } main keysKey).result relayed.session = .ok e ∧
      e.sites.length = 2 ∧
      (resolve { followModules := true } main keysKey).result
        ((Run.addModule other).after relayed.session) = .ok e := by
  have computed : ((resolve { followModules := true } main keysKey).result
      relayed.session).toOption.any (·.sites.length = 2) := by
    decide +kernel
  have elsewhere : main.tree.walk.all fun n =>
      n.broughtModule?.toOption.join.all fun specifier =>
        (Module.lookup relayed.view specifier main.path).toOption.join != some other.path := by
    decide +kernel
  rw [Option.any_eq_true] at computed
  obtain ⟨e, resolved, two⟩ := computed
  rw [Except.toOption_eq_some_iff] at resolved
  have keyed := relayed.keyed_session
  -- `main.js` does not refer to `other.js`, so the modules that count are the same.
  have trees : ∀ target, main.RefersTo relayed target →
      relayed.session.treeAt target =
        ((Run.addModule other).after relayed.session).treeAt target := by
    rintro target ⟨n, mem, specifier, brought, located⟩
    have differs := List.all_eq_true.mp elsewhere n mem
    simp only [brought, located, Except.toOption, Option.join_some, Option.all_some, bne_iff_ne,
      ne_eq, Option.some.injEq] at differs
    rw [Session.treeAt, Session.treeAt, Session.answer_addModule, if_neg differs]
  refine ⟨e, resolved, of_decide_eq_true two, ?_⟩
  rw [← resolved]
  symm
  exact (resolve_one_hop { followModules := true } main keysKey keyed).2.2 _ (keyed.addModule other)
    ⟨fun _ => rfl, fun _ => rfl, fun _ => rfl, rfl⟩ (fun _ => rfl) fun _ => trees

end EnvReads
