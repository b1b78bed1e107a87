import EnvReads.Proofs.OneHop
import Mathlib.Data.List.Forall2

/-!
# Following modules only adds evidence

The chain of a key, with modules followed and without. Each declaration of the key contributes at
most one site of its own (`Part.site`), and the same one either way. If that site refers to a module
and the key is an export of it, then following adds sites directly after it (`Part.added`), at most
one for each value that the module gives the export; nothing else changes. So no site of the file
itself is lost when modules are followed.
-/

namespace EnvReads

/-! ## What a reference adds -/

/-- The site of a value in a module, if it has one. Modules that it refers to in turn are named and
not looked into. -/
def SourceUnit.Shows (s : Session) (unit : SourceUnit) (value : Option Node × List Value)
    (site : Option Site) : Prop :=
  ∃ o, Node.originOf value.1 value.2 = .ok o ∧
    (o.sites Enter.never unit.path).result s = .ok site.toList

/-- The sites that an export of a module adds: those of the values that the module gives it, in
order, and none if the module cannot be had. -/
inductive Added (s : Session) (target : Path) (p : ExportPath) : List Site → Prop
  | absent : s.answer target = .ok none → Added s target p []
  | exported {unit : SourceUnit} {values : List (Option Node × List Value)}
      {sites : List (Option Site)} : s.answer target = .ok (some unit) →
      unit.tree.exports p = .ok values → List.Forall₂ (unit.Shows s) values sites →
      Added s target p (sites.filterMap id)

/-- What stands after a site if modules are followed: nothing, unless the site refers to a module of
which an export is asked for. -/
def Follows (s : Session) : Option (Path × ExportPath) → Option Site → List Site → Prop
  | some (target, p), site, added => site = some (.moduleReference target) ∧ Added s target p added
  | none, _, added => added = []

/-- The export of a module that an origin is, seen from the given file. -/
def Origin.export? (files : FileSystem) (path : Path) : Origin → Option (Path × ExportPath)
  | imported (some specifier) keys _ =>
    (Module.lookup files.view specifier path).toOption.join.bind fun target =>
      (ExportPath.ofList? keys).map (target, ·)
  | _ => none

/-- A module that is not looked into further gives at most one site for a value. -/
theorem Origin.exists_site_of_never {o : Origin} {path : Path} {s : Session} {sites : List Site}
    (h : (o.sites Enter.never path).result s = .ok sites) :
    ∃ site : Option Site, sites = site.toList := by
  cases o with
  | nothing =>
      cases h
      exact ⟨none, rfl⟩
  | literal value place | unknown place =>
      obtain ⟨span, -, given⟩ := Run.result_raise_bind_eq_ok_iff.mp h
      cases given
      exact ⟨some _, rfl⟩
  | imported specifier keys place =>
      obtain ⟨found, -, h⟩ := Run.result_bind_eq_ok_iff.mp h
      cases found with
      | none =>
          obtain ⟨span, -, given⟩ := Run.result_raise_bind_eq_ok_iff.mp h
          cases given
          exact ⟨some _, rfl⟩
      | some target =>
          cases keys with
          | nil =>
              cases h
              exact ⟨some _, rfl⟩
          | cons key keys =>
              cases h
              exact ⟨some _, rfl⟩

theorem reads_never (target : Path) (p : ExportPath) : Run.Reads (Enter.never target p) :=
  .pure []

/-- The values of an export are shown one by one. -/
theorem exists_shows_of_exportSites {unit : SourceUnit} {values : List (Option Node × List Value)}
    {s : Session} {sites : List Site}
    (h : (exportSites Enter.never unit values).result s = .ok sites) :
    ∃ found : List (Option Site), List.Forall₂ (unit.Shows s) values found ∧
      sites = found.filterMap id := by
  induction values generalizing sites with
  | nil =>
      cases h
      exact ⟨[], .nil, rfl⟩
  | cons entry rest ih =>
      obtain ⟨value, keys⟩ := entry
      obtain ⟨o, origin, h⟩ := Run.result_raise_bind_eq_ok_iff.mp h
      obtain ⟨here, first, h⟩ := Run.result_bind_eq_ok_iff.mp h
      obtain ⟨more, later, h⟩ := Run.result_bind_eq_ok_iff.mp h
      cases h
      have alike := (o.reads_sites reads_never unit.path).alike s
      rw [(reads_exportSites reads_never unit rest).result_eq alike] at later
      obtain ⟨found, shown, rfl⟩ := ih later
      obtain ⟨site, rfl⟩ := Origin.exists_site_of_never first
      refine ⟨site :: found, .cons ⟨o, origin, first⟩ shown, ?_⟩
      cases site <;> rfl

theorem SourceUnit.Shows.of_alike {s t : Session} (same : Session.Alike t s) {unit : SourceUnit}
    {value : Option Node × List Value} {site : Option Site} (h : unit.Shows t value site) :
    unit.Shows s value site := by
  obtain ⟨o, origin, shown⟩ := h
  exact ⟨o, origin, (o.reads_sites reads_never unit.path).result_eq same ▸ shown⟩

/-- To look one module deep adds what the module shows of the export. -/
theorem added_of_hops {s : Session} {target : Path} {p : ExportPath} {sites : List Site}
    (h : (Enter.hops Run.loadModule 1 target p).result s = .ok sites) : Added s target p sites := by
  obtain ⟨found, loaded, h⟩ := Run.result_bind_eq_ok_iff.mp h
  obtain ⟨answer, alike⟩ := Run.loadModule_eq target s
  rw [answer] at loaded
  cases found with
  | none =>
      cases h
      exact .absent loaded
  | some unit =>
      obtain ⟨values, exported, h⟩ := Run.result_raise_bind_eq_ok_iff.mp h
      obtain ⟨found, shown, rfl⟩ := exists_shows_of_exportSites h
      exact .exported loaded exported (shown.imp fun _ _ shows => shows.of_alike alike)

/-- An origin gives the same site whether modules are followed or not, and what is added follows
that site. -/
theorem Origin.follows_of_sites {o : Origin} {path : Path} {s : Session} {sites sites' : List Site}
    (off : (o.sites Enter.never path).result s = .ok sites)
    (on : (o.sites (Enter.hops Run.loadModule 1) path).result s = .ok sites') :
    ∃ (site : Option Site) (added : List Site), sites = site.toList ∧
      sites' = site.toList ++ added ∧ Follows s (o.export? s.files path) site added := by
  -- Only a reference to an export of a module asks for more; all other origins give one answer.
  have plain : o.export? s.files path = none → sites' = sites →
      ∃ (site : Option Site) (added : List Site), sites = site.toList ∧
        sites' = site.toList ++ added ∧ Follows s (o.export? s.files path) site added := by
    rintro unnamed rfl
    obtain ⟨site, rfl⟩ := exists_site_of_never off
    refine ⟨site, [], rfl, (List.append_nil _).symm, ?_⟩
    rw [unnamed]
    rfl
  cases o with
  | nothing | literal _ _ | unknown _ => exact plain rfl (Except.ok.inj (on.symm.trans off))
  | imported specifier keys place =>
      cases specifier with
      | none => exact plain rfl (Except.ok.inj (on.symm.trans off))
      | some specifier =>
          obtain ⟨found, located, off'⟩ := Run.result_bind_eq_ok_iff.mp off
          obtain ⟨found', located', on'⟩ := Run.result_bind_eq_ok_iff.mp on
          cases located.symm.trans located'
          rw [result_locate] at located
          rw [after_locate] at off' on'
          cases found with
          | none =>
              refine plain ?_ (Except.ok.inj (on'.symm.trans off'))
              simp [export?, located, Except.toOption]
          | some target =>
              cases keys with
              | nil =>
                  refine plain ?_ (Except.ok.inj (on'.symm.trans off'))
                  simp [export?, located, Except.toOption, ExportPath.ofList?]
              | cons key keys =>
                  obtain ⟨more, looked, given⟩ := Run.result_bind_eq_ok_iff.mp on'
                  cases given
                  cases off'
                  refine ⟨some (.moduleReference target), more, rfl, rfl, ?_⟩
                  have referred :
                      (imported (some specifier) (key :: keys) place).export? s.files path =
                      some (target, ⟨key, keys⟩) := by
                    simp [export?, located, Except.toOption, ExportPath.ofList?]
                  rw [referred]
                  exact ⟨rfl, added_of_hops looked⟩

/-! ## Chains in parts -/

namespace Resolver

/-- The resolver that follows modules, or does not. -/
def following (r : Resolver) (follow : Bool) : Resolver :=
  { r with followModules := follow }

/-- What one declaration contributes to a chain. -/
structure Part where
  declaration : Node
  /-- The site of the declaration itself. -/
  site : Option Site
  /-- What comes after that site if modules are followed. -/
  added : List Site

variable (r : Resolver) (unit : SourceUnit) (p : StaticPath) (s : Session)

/-- The export of a module that a declaration takes the path from. -/
def export? (d : Node) : Option (Path × ExportPath) :=
  (d.declarationOrigin? p).toOption.join.bind (·.export? s.files unit.path)

/-- The part is what its declaration contributes with modules followed and without, and what is
added belongs to the module that the declaration refers to. -/
structure Part.Fits (part : Part) : Prop where
  off : ∃ warnings, (r.following false).contribution unit p s part.declaration =
    .ok ⟨part.site.toList, warnings⟩
  on : ∃ warnings, (r.following true).contribution unit p s part.declaration =
    .ok ⟨part.site.toList ++ part.added, warnings⟩
  follows : Follows s (export? unit p s part.declaration) part.site part.added

variable {r unit p s}

/-- One declaration. -/
theorem exists_part {d : Node} {e e' : Evidence}
    (off : (r.following false).contribution unit p s d = .ok e)
    (on : (r.following true).contribution unit p s d = .ok e') :
    ∃ part : Part, part.declaration = d ∧ part.Fits r unit p s ∧ e.sites = part.site.toList ∧
      e'.sites = part.site.toList ++ part.added ∧ e'.warnings = e.warnings := by
  obtain ⟨found, origin, off'⟩ := Run.result_raise_bind_eq_ok_iff.mp off
  obtain ⟨found', origin', on'⟩ := Run.result_raise_bind_eq_ok_iff.mp on
  cases origin.symm.trans origin'
  have exported : export? unit p s d = found.bind (·.export? s.files unit.path) := by
    rw [export?, origin]
    rfl
  cases found with
  | none =>
      obtain ⟨warning, warned, given⟩ := Run.result_raise_bind_eq_ok_iff.mp off'
      obtain ⟨warning', warned', given'⟩ := Run.result_raise_bind_eq_ok_iff.mp on'
      cases warned.symm.trans warned'
      cases given
      cases given'
      exact ⟨⟨d, none, []⟩, rfl, ⟨⟨_, off⟩, ⟨_, on⟩, by rw [exported]; rfl⟩, rfl, rfl, rfl⟩
  | some o =>
      obtain ⟨sites, shown, given⟩ := Run.result_bind_eq_ok_iff.mp off'
      obtain ⟨sites', shown', given'⟩ := Run.result_bind_eq_ok_iff.mp on'
      cases given
      cases given'
      obtain ⟨site, added, rfl, rfl, follows⟩ := o.follows_of_sites shown shown'
      exact ⟨⟨d, site, added⟩, rfl, ⟨⟨_, off⟩, ⟨_, on⟩, by rw [exported]; exact follows⟩, rfl, rfl,
        rfl⟩

/-- All declarations. Declarations only read, so each of them is met in a session that is alike to
the first one, in the two runs. -/
theorem exists_parts {ds : List Node} {e e' : Evidence}
    (off : ((r.following false).evidence Run.loadModule unit p ds).result s = .ok e)
    (on : ((r.following true).evidence Run.loadModule unit p ds).result s = .ok e') :
    ∃ parts : List Part, parts.map Part.declaration = ds ∧ (∀ part ∈ parts, part.Fits r unit p s) ∧
      e.sites = parts.filterMap Part.site ∧
      e'.sites = parts.flatMap (fun part => part.site.toList ++ part.added) ∧
      e'.warnings = e.warnings := by
  induction ds generalizing e e' with
  | nil =>
      cases off
      cases on
      exact ⟨[], rfl, by simp, rfl, rfl, rfl⟩
  | cons d rest ih =>
      obtain ⟨here, first, off⟩ := Run.result_bind_eq_ok_iff.mp off
      obtain ⟨more, later, off⟩ := Run.result_bind_eq_ok_iff.mp off
      obtain ⟨here', first', on⟩ := Run.result_bind_eq_ok_iff.mp on
      obtain ⟨more', later', on⟩ := Run.result_bind_eq_ok_iff.mp on
      cases off
      cases on
      have alike := ((r.following false).reads_declarationEvidence unit p d).alike s
      have alike' := ((r.following true).reads_declarationEvidence unit p d).alike s
      rw [((r.following false).reads_evidence unit p rest).result_eq alike] at later
      rw [((r.following true).reads_evidence unit p rest).result_eq alike'] at later'
      obtain ⟨part, rfl, fits, sites, sites', warnings⟩ := exists_part first first'
      obtain ⟨parts, rfl, fit, moreSites, moreSites', moreWarnings⟩ := ih later later'
      refine ⟨part :: parts, rfl, List.forall_mem_cons.mpr ⟨fits, fit⟩, ?_, ?_, ?_⟩
      · rw [sites, moreSites, List.filterMap_cons]
        cases part.site <;> rfl
      · rw [sites', moreSites', List.flatMap_cons]
      · rw [warnings, moreWarnings]

theorem sublist_flatMap (parts : List Part) :
    (parts.filterMap Part.site).Sublist
      (parts.flatMap fun part => part.site.toList ++ part.added) := by
  induction parts with
  | nil => exact .slnil
  | cons part rest ih =>
      have here : part.site.toList.Sublist (part.site.toList ++ part.added) :=
        List.sublist_append_left _ _
      have whole := here.append ih
      rw [List.filterMap_cons, List.flatMap_cons]
      cases site : part.site with
      | none => simpa [site] using whole
      | some _ => simpa [site] using whole

/-- The chain of a key with modules followed is its chain without, with sites put in directly after
references to modules. Both consist of one part for each declaration of the key; a part has at most
one site of its own, and more only if that site refers to a module of which an export is asked for,
and then at most one for each value that the module gives the export. So the shorter chain is a
subsequence of the longer one, and each of its sites is still there. -/
theorem resolve_following_adds {key : Node} {t t' : Session} {e e' : Evidence}
    (off : (r.following false).resolve unit key s = .ok e t)
    (on : (r.following true).resolve unit key s = .ok e' t') :
    ∃ parts : List Part,
      (key.staticPath? = .ok none ∧ parts = [] ∨
        ∃ p, key.staticPath? = .ok (some p) ∧
          unit.tree.declarationsOf p = .ok (parts.map Part.declaration) ∧
          ∀ part ∈ parts, part.Fits r unit p s) ∧
      e.sites = parts.filterMap Part.site ∧
      e'.sites = parts.flatMap (fun part => part.site.toList ++ part.added) ∧
      e'.warnings = e.warnings ∧ e.sites.Sublist e'.sites ∧ ∀ site ∈ e.sites, site ∈ e'.sites := by
  have off := (Run.eq_ok_iff.mp off).1
  have on := (Run.eq_ok_iff.mp on).1
  cases path : key.staticPath? with
  | error fault =>
      obtain ⟨found, read, -⟩ := Run.result_raise_bind_eq_ok_iff.mp off
      cases path.symm.trans read
  | ok found =>
      cases found with
      | none =>
          obtain ⟨found, read, off⟩ := Run.result_raise_bind_eq_ok_iff.mp off
          cases path.symm.trans read
          obtain ⟨found', read', on⟩ := Run.result_raise_bind_eq_ok_iff.mp on
          cases path.symm.trans read'
          cases off
          cases on
          exact ⟨[], .inl ⟨rfl, rfl⟩, rfl, rfl, rfl, .slnil, by simp⟩
      | some p =>
          obtain ⟨ds, declared, off⟩ := evidence_of_resolve path off
          obtain ⟨ds', declared', on⟩ := evidence_of_resolve path on
          cases declared.symm.trans declared'
          obtain ⟨parts, rfl, fits, sites, sites', warnings⟩ := exists_parts off on
          have kept : e.sites.Sublist e'.sites := by
            rw [sites, sites']
            exact sublist_flatMap parts
          exact ⟨parts, .inr ⟨p, rfl, declared, fits⟩, sites, sites', warnings, kept,
            fun site mem => kept.subset mem⟩

open Sample in
/-- The key of `main.js` is a reference to `keys.js` and, if modules are followed, a literal in it.
-/
theorem resolve_following_adds_exported :
    ∃ e e', (resolve {} main keysKey).result files.session = .ok e ∧
      (resolve { followModules := true } main keysKey).result files.session = .ok e' ∧
      e.sites.length = 1 ∧ e'.sites.length = 2 ∧ e.sites.Sublist e'.sites := by
  have computed : ((resolve {} main keysKey).run' files.session).any (fun e =>
      ((resolve { followModules := true } main keysKey).run' files.session).any fun e' =>
        e.sites.length = 1 && e'.sites.length = 2) := by
    decide +kernel
  simp only [Option.any_eq_true, run'_eq_some_iff, Bool.and_eq_true, decide_eq_true_eq] at computed
  obtain ⟨e, ⟨t, off⟩, e', ⟨t', on⟩, one, two⟩ := computed
  obtain ⟨parts, -, -, -, -, kept, -⟩ := resolve_following_adds (r := {}) off on
  exact ⟨e, e', (Run.eq_ok_iff.mp off).1, (Run.eq_ok_iff.mp on).1, one, two, kept⟩

end Resolver

end EnvReads
