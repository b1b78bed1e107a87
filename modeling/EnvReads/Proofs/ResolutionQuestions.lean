import EnvReads.Proofs.DeclarationQuestions
import EnvReads.Proofs.FollowedModules
import EnvReads.Proofs.LookupQuestions

/-!
# What resolution asks

Resolution of a key puts its questions to the file of the key and to the modules that are looked
into (`Resolver.Asks`), looks up modules (`Resolver.LooksUp`), and may have the tree of the file
written to a debug directory. It returns exactly if all of these questions have an answer, the
modules are nodes and can be looked up, and the tree can be written
(`Resolver.isOk_resolve_iff`).
-/

namespace EnvReads

namespace Run

variable {α β : Type} {m : Run α} {f : α → Run β} {s : Session}

/-- Two runs that only read end well if both do, from the same session. -/
theorem isOk_result_bind_iff (first : Reads m) (later : ∀ a, Reads (f a)) :
    ((m >>= f).result s).isOk ↔ ∃ a, m.result s = .ok a ∧ ((f a).result s).isOk := by
  rw [result_bind, Except.isOk_bind_iff]
  refine exists_congr fun a => and_congr_right fun _ => ?_
  rw [(later a).result_eq (first.alike s)]

/-- The last step of a run only puts together what was found. -/
theorem isOk_result_bind_pure {g : α → β} :
    ((m >>= fun a => pure (g a)).result s).isOk = (m.result s).isOk := by
  rw [result_bind]
  cases m.result s <;> rfl

/-- A run ends well if it has a result. -/
theorem exists_eq_ok_iff_isOk : (∃ a t, m s = .ok a t) ↔ (m.result s).isOk := by
  rw [result]
  cases m s <;> simp

end Run

open Run (Reads)

/-! ## Origins -/

namespace Origin

/-- The module that an origin names. -/
def specifier? : Origin → Option Text
  | imported specifier _ _ => specifier
  | _ => none

/-- An origin that is not made out, with the node at which it was found: an expression of unknown
value, or a module that is not there. -/
inductive IsUnresolved (files : FileSystem) (path : Path) : Origin → Node → Prop
  | unknown {place : Node} : IsUnresolved files path (.unknown place) place
  | unnamed {keys : List Value} {place : Node} :
      IsUnresolved files path (.imported none keys place) place
  | missing {specifier : Text} {keys : List Value} {place : Node} :
      Module.lookup files.view specifier path = .ok none →
      IsUnresolved files path (.imported (some specifier) keys place) place

/-- What is asked for the sites of an origin: where it was found, save for a module. -/
inductive SiteAsks (files : FileSystem) (path : Path) : Origin → Question → Prop
  | literal {v : Value} {place : Node} : SiteAsks files path (.literal v place) ⟨.place, place⟩
  | unresolved {o : Origin} {place : Node} : IsUnresolved files path o place →
      SiteAsks files path o ⟨.place, place⟩

/-- What is unresolved has one site, which tells where it was found. No module is entered. -/
theorem isOk_sites_iff_of_isUnresolved {o : Origin} {place : Node} {s : Session} {enter : Enter}
    {path : Path} (h : o.IsUnresolved s.files path place) :
    ((o.sites enter path).result s).isOk ↔
      (∀ q, o.SiteAsks s.files path q → q.HasAnswer) ∧
      (∀ specifier, o.specifier? = some specifier →
        (Module.lookup s.files.view specifier path).isOk) ∧
      ∀ target e, o.export? s.files path = some (target, e) → ((enter target e).result s).isOk := by
  have asked : (∀ q, o.SiteAsks s.files path q → q.HasAnswer) ↔ place.span?.isOk := by
    rw [Node.isOk_span?_iff]
    refine ⟨fun answered => answered _ (.unresolved h), fun has q asks => ?_⟩
    cases h <;> rcases asks with - | ⟨⟨⟩⟩ <;> exact has
  rw [asked]
  cases h with
  | unknown =>
      simp only [sites]
      rw [Run.isOk_result_bind_pure, Run.result_raise]
      simp [specifier?, export?]
  | unnamed =>
      simp only [sites, locate, pure_bind]
      rw [Run.isOk_result_bind_pure, Run.result_raise]
      simp [specifier?, export?]
  | missing found =>
      simp only [sites]
      rw [Run.result_bind, result_locate, after_locate, found]
      change (Run.result (_ >>= fun _ => pure _) s).isOk ↔ _
      rw [Run.isOk_result_bind_pure, Run.result_raise]
      simp [specifier?, export?, found, Except.toOption]

/-- The sites of an origin are given exactly if the place that is asked for is there, the module
that it names can be looked up, and its export can be entered. -/
theorem isOk_sites_iff {o : Origin} {s : Session} (enter : Enter) (path : Path) :
    ((o.sites enter path).result s).isOk ↔
      (∀ q, o.SiteAsks s.files path q → q.HasAnswer) ∧
      (∀ specifier, o.specifier? = some specifier →
        (Module.lookup s.files.view specifier path).isOk) ∧
      ∀ target e, o.export? s.files path = some (target, e) → ((enter target e).result s).isOk := by
  cases o with
  | nothing =>
      refine iff_of_true rfl ⟨fun q asks => ?_, ?_, ?_⟩
      · rcases asks with - | ⟨⟨⟩⟩
      · rintro specifier ⟨⟩
      · rintro target e ⟨⟩
  | literal value place =>
      have asked : (∀ q, (literal value place).SiteAsks s.files path q → q.HasAnswer) ↔
          place.span?.isOk := by
        rw [Node.isOk_span?_iff]
        refine ⟨fun answered => answered _ .literal, fun has q asks => ?_⟩
        rcases asks with - | ⟨⟨⟩⟩
        exact has
      rw [asked]
      simp only [sites]
      rw [Run.isOk_result_bind_pure, Run.result_raise]
      simp [specifier?, export?]
  | unknown place => exact isOk_sites_iff_of_isUnresolved .unknown
  | imported specifier keys place =>
      cases specifier with
      | none => exact isOk_sites_iff_of_isUnresolved .unnamed
      | some specifier =>
          cases found : Module.lookup s.files.view specifier path with
          | error fault =>
              simp only [sites]
              rw [Run.result_bind, result_locate, found]
              refine iff_of_false Bool.false_ne_true fun h => ?_
              have ok := h.2.1 specifier rfl
              rw [found] at ok
              cases ok
          | ok target =>
              cases target with
              | none => exact isOk_sites_iff_of_isUnresolved (.missing found)
              | some target =>
                  have silent (q : Question)
                      (asks : (imported (some specifier) keys place).SiteAsks s.files path q) :
                      q.HasAnswer := by
                    rcases asks with - | ⟨- | - | missing⟩
                    cases found.symm.trans missing
                  simp only [sites]
                  rw [Run.result_bind, result_locate, after_locate, found, and_iff_right silent]
                  cases slot : ExportPath.ofList? keys with
                  | none =>
                      simp [specifier?, export?, found, slot, Except.toOption, bind, Except.bind]
                  | some e =>
                      change (Run.result (_ >>= fun _ => pure _) s).isOk ↔ _
                      rw [Run.isOk_result_bind_pure]
                      simp [specifier?, export?, found, slot, Except.toOption]

/-- The module that an origin leads into is a file. -/
theorem isFile_of_export? {files : FileSystem} {path target : Path} {e : ExportPath} {o : Origin}
    (h : o.export? files path = some (target, e)) : files.isFile target = .ok true := by
  cases o with
  | nothing | literal _ _ | unknown _ => cases h
  | imported specifier keys place =>
      cases specifier with
      | none => cases h
      | some specifier =>
          obtain ⟨found, located, h⟩ := Option.bind_eq_some_iff.mp h
          obtain ⟨e', -, same⟩ := Option.map_eq_some_iff.mp h
          cases same
          have located := Except.toOption_eq_some_iff.mp (Option.join_eq_some_iff.mp located)
          exact Module.isFile_of_lookup located

end Origin

/-! ## Exports of followed modules -/

/-- A file that is there can be loaded or counts as absent, unless a parser gives no node for it. -/
theorem SourceUnit.isOk_loadModule {fs : FileSystem} {path : Path}
    (file : fs.isFile path = .ok true) (node : loadModule fs path ≠ .error .notANode) :
    (loadModule fs path).isOk := by
  rw [loadModule, file] at node ⊢
  split
  · rfl
  · next other =>
      simp only [other, if_false, bind, Except.bind, if_true] at node ⊢
      split
      · rfl
      · next noNode => simp [noNode, throw, throwThe, MonadExceptOf.throw] at node
      · rfl

/-- The answer for a file fails only if what is in it is no tree. -/
theorem Session.isOk_answer_iff {s : Session} {path : Path}
    (file : s.files.isFile path = .ok true) :
    (s.answer path).isOk ↔ s.answer path ≠ .error .notANode := by
  constructor
  · intro h fails
    rw [fails] at h
    cases h
  · intro node
    rw [answer] at node ⊢
    cases known : s.modules.find? path with
    | some unit => rfl
    | none =>
        rw [known] at node
        exact SourceUnit.isOk_loadModule file node

namespace SourceUnit

/-- The origin is that of a value of the export. -/
def Exports (unit : SourceUnit) (e : ExportPath) (o : Origin) : Prop :=
  ∃ values, unit.tree.exports e = .ok values ∧ ∃ v ∈ values, Node.originOf v.1 v.2 = .ok o

/-- What is asked for the sites of an export of a module. -/
inductive ExportAsks (files : FileSystem) (unit : SourceUnit) (e : ExportPath) : Question → Prop
  | search {q : Question} : unit.tree.ExportAsks q → ExportAsks files unit e q
  | value {values : List (Option Node × List Value)} {n : Node} {keys : List Value}
      {q : Question} : unit.tree.exports e = .ok values → (some n, keys) ∈ values →
      n.OriginAsks keys q → ExportAsks files unit e q
  | site {o : Origin} {q : Question} : unit.Exports e o → o.SiteAsks files unit.path q →
      ExportAsks files unit e q

end SourceUnit

section

variable {unit : SourceUnit} {s : Session}

/-- Exported values have sites if each of them has an origin with sites. -/
theorem isOk_exportSites_iff {enter : Enter} {values : List (Option Node × List Value)}
    (reads : ∀ target e, Reads (enter target e)) :
    ((exportSites enter unit values).result s).isOk ↔
      ∀ v ∈ values, ∃ o, Node.originOf v.1 v.2 = .ok o ∧
        ((o.sites enter unit.path).result s).isOk := by
  induction values with
  | nil => simp [exportSites]
  | cons v rest ih =>
      obtain ⟨value, keys⟩ := v
      rw [List.forall_mem_cons, ← ih, exportSites]
      cases origin : Node.originOf value keys with
      | error fault =>
          refine iff_of_false Bool.false_ne_true fun h => ?_
          obtain ⟨o, origin, -⟩ := h.1
          cases origin
      | ok o =>
          have sites := o.reads_sites reads unit.path
          have more := reads_exportSites reads unit rest
          change ((o.sites enter unit.path >>= fun _ => _).result s).isOk ↔ _
          rw [Run.isOk_result_bind_iff sites fun _ => more.bind fun _ => .pure _]
          simp only [Run.isOk_result_bind_pure, exists_and_right, Except.exists_eq_ok_iff,
            Except.ok.injEq, exists_eq_left']

/-- What the values of an export need: answers to what is asked of them, and modules that can be
looked up. -/
theorem isOk_exports_iff {e : ExportPath} :
    (Run.result (Fault.raise (unit.tree.exports e) >>= exportSites Enter.never unit) s).isOk ↔
      (∀ q, unit.ExportAsks s.files e q → q.HasAnswer) ∧
      ∀ o, unit.Exports e o → ∀ specifier, o.specifier? = some specifier →
        (Module.lookup s.files.view specifier unit.path).isOk := by
  have sites (o : Origin) : ((o.sites Enter.never unit.path).result s).isOk ↔
      (∀ q, o.SiteAsks s.files unit.path q → q.HasAnswer) ∧
      ∀ specifier, o.specifier? = some specifier →
        (Module.lookup s.files.view specifier unit.path).isOk := by
    rw [Origin.isOk_sites_iff]
    exact and_congr_right fun _ => and_iff_left fun _ _ _ => rfl
  cases exported : unit.tree.exports e with
  | error fault =>
      refine iff_of_false Bool.false_ne_true fun h => ?_
      have answered := Node.isOk_exports_iff (e := e).mpr fun q asks => h.1 q (.search asks)
      rw [exported] at answered
      cases answered
  | ok values =>
      change ((exportSites Enter.never unit values).result s).isOk ↔ _
      rw [isOk_exportSites_iff reads_never]
      constructor
      · intro h
        refine ⟨fun q asks => ?_, ?_⟩
        · cases asks with
          | search asks =>
              exact Node.isOk_exports_iff.mp (Except.isOk_iff.mpr ⟨values, exported⟩) q asks
          | value exported' mem asks =>
              cases exported.symm.trans exported'
              obtain ⟨o, origin, -⟩ := h _ mem
              exact Node.isOk_origin_iff.mp (Except.isOk_iff.mpr ⟨o, origin⟩) q asks
          | site exports asks =>
              obtain ⟨values', exported', v, mem, origin⟩ := exports
              cases exported.symm.trans exported'
              obtain ⟨o', origin', given⟩ := h v mem
              cases origin.symm.trans origin'
              exact ((sites _).mp given).1 q asks
        · rintro o ⟨values', exported', v, mem, origin⟩
          cases exported.symm.trans exported'
          obtain ⟨o', origin', given⟩ := h v mem
          cases origin.symm.trans origin'
          exact ((sites _).mp given).2
      · rintro ⟨answered, looked⟩ v mem
        have origin : (Node.originOf v.1 v.2).isOk := by
          refine Node.isOk_originOf_iff.mpr fun n value q asks => ?_
          obtain ⟨first, keys⟩ := v
          cases value
          exact answered q (.value exported mem asks)
        obtain ⟨o, origin⟩ := Except.isOk_iff.mp origin
        have exports : unit.Exports e o := ⟨values, exported, v, mem, origin⟩
        exact ⟨o, origin, (sites o).mpr ⟨fun q asks => answered q (.site exports asks),
          looked o exports⟩⟩

/-- A module can be entered if it is a tree and its exports can be asked for. -/
theorem isOk_hops_one_iff {target : Path} {e : ExportPath}
    (file : s.files.isFile target = .ok true) :
    ((Enter.hops Run.loadModule 1 target e).result s).isOk ↔
      s.answer target ≠ .error .notANode ∧ ∀ module, s.answer target = .ok (some module) →
        (∀ q, module.ExportAsks s.files e q → q.HasAnswer) ∧
        ∀ o, module.Exports e o → ∀ specifier, o.specifier? = some specifier →
          (Module.lookup s.files.view specifier module.path).isOk := by
  obtain ⟨loaded, alike⟩ := Run.loadModule_eq target s
  rw [← Session.isOk_answer_iff file, Enter.hops, Run.result_bind, loaded]
  cases answered : s.answer target with
  | error fault => simp [bind, Except.bind]
  | ok found =>
      cases found with
      | none => simp [bind, Except.bind]
      | some module =>
          have reads : Reads (Fault.raise (module.tree.exports e) >>=
              exportSites Enter.never module) :=
            (Reads.raise _).bind fun values => reads_exportSites reads_never module values
          simp only [Except.isOk_ok, true_and, Except.ok.injEq, Option.some.injEq, forall_eq',
            ← isOk_exports_iff, ← reads.result_eq alike]
          rfl

end

/-! ## The debug directory -/

/-- Two texts can be encoded together if each of them can. -/
theorem Utf8.isSome_encode?_append {t u : Text} :
    (encode? (t ++ u)).isSome ↔ (encode? t).isSome ∧ (encode? u).isSome := by
  simp only [encode?, List.any_append]
  cases t.any CodePoint.isSurrogate <;> cases u.any CodePoint.isSurrogate <;> simp

/-- Pieces can be written one after the other exactly if they make up a text in Unicode. -/
theorem Json.isOk_emit_iff {pieces : List Chunk} :
    (emit pieces).2.isOk ↔ ∃ t, assemble pieces = .ok t ∧ (Utf8.encode? t).isSome := by
  induction pieces with
  | nil => exact iff_of_true rfl ⟨[], rfl, rfl⟩
  | cons piece rest ih =>
      cases piece with
      | error fault => simp [emit, assemble, bind, Except.bind]
      | ok t =>
          have joined : assemble (.ok t :: rest) = assemble rest >>= fun more => pure (t ++ more) :=
            rfl
          have whole : (∃ u, assemble (.ok t :: rest) = .ok u ∧ (Utf8.encode? u).isSome) ↔
              (Utf8.encode? t).isSome ∧ (emit rest).2.isOk := by
            simp only [ih, joined, Except.bind_eq_ok_iff, Except.pure_eq_ok_iff]
            constructor
            · rintro ⟨_, ⟨more, assembled, rfl⟩, encoded⟩
              obtain ⟨here, later⟩ := Utf8.isSome_encode?_append.mp encoded
              exact ⟨here, more, assembled, later⟩
            · rintro ⟨here, more, assembled, later⟩
              exact ⟨_, ⟨more, assembled, rfl⟩, Utf8.isSome_encode?_append.mpr ⟨here, later⟩⟩
          rw [whole, emit]
          cases Utf8.encode? t <;> simp

/-- A tree can be written if the operating system can be asked for a file, and the tree has a JSON
text in Unicode if there is one. -/
theorem Resolver.isOk_dump_iff {dir : Path} {unit : SourceUnit} {s : Session} :
    ((dump dir unit).result s).isOk ↔
      match (FileSystem.observed (prepareDump dir unit s.files)).1 with
      | .error fault => fault.fatal? = none
      | .ok () => ∃ t, Json.write unit.tree.toValue = .ok t ∧ (Utf8.encode? t).isSome := by
  rw [result_dump]
  cases (FileSystem.observed (prepareDump dir unit s.files)).1 with
  | ok => exact Json.isOk_emit_iff
  | error fault =>
      dsimp only
      cases fault.fatal? <;> simp

/-! ## Keys -/

namespace SourceUnit

/-- The declaration is one of the path of the key. -/
def Declares (unit : SourceUnit) (key : Node) (p : StaticPath) (d : Node) : Prop :=
  key.staticPath? = .ok (some p) ∧ ∃ ds, unit.tree.declarationsOf p = .ok ds ∧ d ∈ ds

/-- The origin is that of the key in one of its declarations. -/
def HasOrigin (unit : SourceUnit) (key : Node) (o : Origin) : Prop :=
  ∃ p d, unit.Declares key p d ∧ d.declarationOrigin? p = .ok (some o)

/-- What is asked of a file for a key in it. -/
inductive KeyAsks (files : FileSystem) (unit : SourceUnit) (key : Node) : Question → Prop
  | path {q : Question} : key.PathAsks q → KeyAsks files unit key q
  | search {p : StaticPath} {q : Question} : key.staticPath? = .ok (some p) →
      unit.tree.SearchAsks p q → KeyAsks files unit key q
  | declaration {p : StaticPath} {d : Node} {q : Question} : unit.Declares key p d →
      d.DeclarationAsks p q → KeyAsks files unit key q
  | unsupported {p : StaticPath} {d : Node} : unit.Declares key p d →
      d.declarationOrigin? p = .ok none → KeyAsks files unit key ⟨.label, d⟩
  | site {o : Origin} {q : Question} : unit.HasOrigin key o → o.SiteAsks files unit.path q →
      KeyAsks files unit key q

end SourceUnit

namespace Resolver

/-- The modules that are looked into for a key, each for an export: those that its declarations
refer to, if modules are followed. -/
def Enters (r : Resolver) (unit : SourceUnit) (key : Node) (s : Session) (target : Path)
    (e : ExportPath) : Prop :=
  r.followModules ∧ ∃ o, unit.HasOrigin key o ∧ o.export? s.files unit.path = some (target, e)

/-- What is asked to resolve a key: of its file, and of the modules that are looked into. -/
inductive Asks (r : Resolver) (unit : SourceUnit) (key : Node) (s : Session) : Question → Prop
  | file {q : Question} : unit.KeyAsks s.files key q → Asks r unit key s q
  | module {target : Path} {e : ExportPath} {module : SourceUnit} {q : Question} :
      r.Enters unit key s target e → s.answer target = .ok (some module) →
      module.ExportAsks s.files e q → Asks r unit key s q

/-- The modules that are looked up for a key, each from a file: those that its declarations refer
to, and if modules are followed those that the values of the exports refer to. -/
inductive LooksUp (r : Resolver) (unit : SourceUnit) (key : Node) (s : Session) :
    Text → Path → Prop
  | declared {o : Origin} {specifier : Text} : unit.HasOrigin key o →
      o.specifier? = some specifier → LooksUp r unit key s specifier unit.path
  | exported {o : Origin} {target : Path} {e : ExportPath} {module : SourceUnit}
      {specifier : Text} : r.Enters unit key s target e → s.answer target = .ok (some module) →
      module.Exports e o → o.specifier? = some specifier →
      LooksUp r unit key s specifier module.path

/-- If the tree is to be written to the debug directory, then the operating system can be asked for
a file there, and where there is one the tree has a JSON text in Unicode. -/
def CanDump (r : Resolver) (unit : SourceUnit) (key : Node) (s : Session) : Prop :=
  ∀ dir p, r.debugDir = some dir → key.staticPath? = .ok (some p) →
    unit.tree.declarationsOf p = .ok [] →
    match (FileSystem.observed (prepareDump dir unit s.files)).1 with
    | .error fault => fault.fatal? = none
    | .ok () => ∃ t, Json.write unit.tree.toValue = .ok t ∧ (Utf8.encode? t).isSome

/-- What resolution of a key needs, the debug directory apart. -/
structure Provides (r : Resolver) (unit : SourceUnit) (key : Node) (s : Session) : Prop where
  answers : ∀ q, r.Asks unit key s q → q.HasAnswer
  nodes : ∀ target e, r.Enters unit key s target e → s.answer target ≠ .error .notANode
  lookups : ∀ specifier importer, r.LooksUp unit key s specifier importer →
    (Module.lookup s.files.view specifier importer).isOk

variable {r : Resolver} {unit : SourceUnit} {p : StaticPath} {s : Session}

/-- Entering a module fails only if modules are followed. -/
theorem isOk_enter_iff {target : Path} {e : ExportPath}
    (file : s.files.isFile target = .ok true) :
    ((r.enter Run.loadModule target e).result s).isOk ↔ (r.followModules →
      s.answer target ≠ .error .notANode ∧ ∀ module, s.answer target = .ok (some module) →
        (∀ q, module.ExportAsks s.files e q → q.HasAnswer) ∧
        ∀ o, module.Exports e o → ∀ specifier, o.specifier? = some specifier →
          (Module.lookup s.files.view specifier module.path).isOk) := by
  rw [enter]
  split
  · next follow =>
      rw [isOk_hops_one_iff file]
      exact ⟨fun h _ => h, fun h => h follow⟩
  · next follow => exact iff_of_true rfl fun h => absurd h follow

/-- What one declaration of a path needs to contribute. -/
structure Supplies (r : Resolver) (unit : SourceUnit) (p : StaticPath) (s : Session) (d : Node) :
    Prop where
  answers : ∀ q, d.DeclarationAsks p q → q.HasAnswer
  label : d.declarationOrigin? p = .ok none → Question.HasAnswer ⟨.label, d⟩
  sites : ∀ o, d.declarationOrigin? p = .ok (some o) →
    ((o.sites (r.enter Run.loadModule) unit.path).result s).isOk

/-- A declaration has a contribution if it supplies what is asked of it. -/
theorem isOk_contribution_iff {d : Node} (declares : d.declares p = .ok true)
    (shown : p.dotted.isOk) : (r.contribution unit p s d).isOk ↔ r.Supplies unit p s d := by
  rw [contribution, declarationEvidence]
  cases origin : d.declarationOrigin? p with
  | error fault =>
      refine iff_of_false Bool.false_ne_true fun h => ?_
      have found := (Node.isOk_declarationOrigin?_iff declares).mpr h.answers
      rw [origin] at found
      cases found
  | ok found =>
      have answers := (Node.isOk_declarationOrigin?_iff declares).mp
        (Except.isOk_iff.mpr ⟨found, origin⟩)
      cases found with
      | none =>
          change (Run.result (_ >>= fun _ => pure _) s).isOk ↔ _
          rw [Run.isOk_result_bind_pure, Run.result_raise, unsupported]
          obtain ⟨t, shown⟩ := Except.isOk_iff.mp shown
          constructor
          · intro h
            obtain ⟨label, told, -⟩ := Except.isOk_bind_iff.mp h
            refine ⟨answers, fun _ => ?_, fun o given => ?_⟩
            · exact Node.isOk_label_iff.mp (Except.isOk_iff.mpr ⟨label, told⟩)
            · cases origin.symm.trans given
          · intro h
            refine Except.isOk_bind_of_forall (Node.isOk_label_iff.mpr (h.label origin)) ?_
            intro label _
            rw [shown]
            rfl
      | some o =>
          change (Run.result (_ >>= fun _ => pure _) s).isOk ↔ _
          rw [Run.isOk_result_bind_pure]
          constructor
          · intro h
            refine ⟨answers, fun unsupported => ?_, fun o' given => ?_⟩
            · cases origin.symm.trans unsupported
            · cases origin.symm.trans given
              exact h
          · intro h
            exact h.sites o origin

/-- There is evidence if each declaration has a contribution. -/
theorem isOk_evidence_iff {ds : List Node} : ((r.evidence Run.loadModule unit p ds).result s).isOk ↔
    ∀ d ∈ ds, (r.contribution unit p s d).isOk := by
  induction ds with
  | nil => simp [evidence]
  | cons d rest ih =>
      have here := r.reads_declarationEvidence unit p d
      have more := r.reads_evidence unit p rest
      rw [evidence, Run.isOk_result_bind_iff here fun _ => more.bind fun _ => .pure _]
      simp only [Run.isOk_result_bind_pure, exists_and_right, Except.exists_eq_ok_iff, ih,
        List.forall_mem_cons]
      rfl

/-- What resolution needs of a declaration of the key. -/
theorem Provides.supplies {key d : Node} (h : r.Provides unit key s)
    (declares : unit.Declares key p d) : r.Supplies unit p s d := by
  refine ⟨fun q asks => h.answers q (.file (.declaration declares asks)),
    fun other => h.answers _ (.file (.unsupported declares other)), fun o origin => ?_⟩
  have has : unit.HasOrigin key o := ⟨p, d, declares, origin⟩
  refine (Origin.isOk_sites_iff _ _).mpr ⟨fun q asks => h.answers q (.file (.site has asks)),
    fun specifier names => h.lookups _ _ (.declared has names), fun target e entered => ?_⟩
  refine (isOk_enter_iff (Origin.isFile_of_export? entered)).mpr fun follow => ?_
  have enters : r.Enters unit key s target e := ⟨follow, o, has, entered⟩
  refine ⟨h.nodes target e enters, fun module answered => ⟨?_, ?_⟩⟩
  · exact fun q asks => h.answers q (.module enters answered asks)
  · exact fun o' exports specifier names =>
      h.lookups _ _ (.exported enters answered exports names)

/-- What resolution needs is that the path of the key and its declarations can be found, and that
each declaration can contribute. -/
theorem provides_iff {key : Node} : r.Provides unit key s ↔
    (∀ q, key.PathAsks q → q.HasAnswer) ∧
    (∀ p, key.staticPath? = .ok (some p) → ∀ q, unit.tree.SearchAsks p q → q.HasAnswer) ∧
    ∀ p d, unit.Declares key p d → r.Supplies unit p s d := by
  constructor
  · intro h
    exact ⟨fun q asks => h.answers q (.file (.path asks)),
      fun p path q asks => h.answers q (.file (.search path asks)), fun p d => h.supplies⟩
  · rintro ⟨paths, searches, supplies⟩
    have given {o : Origin} (origin : unit.HasOrigin key o) :
        ((o.sites (r.enter Run.loadModule) unit.path).result s).isOk := by
      obtain ⟨p, d, declares, origin⟩ := origin
      exact (supplies p d declares).sites o origin
    have sites {o : Origin} (origin : unit.HasOrigin key o) :=
      (Origin.isOk_sites_iff _ _).mp (given origin)
    have entered {target : Path} {e : ExportPath} (enters : r.Enters unit key s target e) :
        s.files.isFile target = .ok true ∧
          ((r.enter Run.loadModule target e).result s).isOk := by
      obtain ⟨-, o, origin, entered⟩ := enters
      exact ⟨Origin.isFile_of_export? entered, (sites origin).2.2 _ _ entered⟩
    have modules {target : Path} {e : ExportPath} (enters : r.Enters unit key s target e) :=
      (isOk_enter_iff (entered enters).1).mp (entered enters).2 enters.1
    refine ⟨fun q asks => ?_, fun target e enters => (modules enters).1, ?_⟩
    · cases asks with
      | file asks =>
          cases asks with
          | path asks => exact paths q asks
          | search path asks => exact searches _ path q asks
          | declaration declares asks => exact (supplies _ _ declares).answers q asks
          | unsupported declares other => exact (supplies _ _ declares).label other
          | site origin asks => exact (sites origin).1 q asks
      | module enters answered asks => exact ((modules enters).2 _ answered).1 q asks
    · intro specifier importer looks
      cases looks with
      | declared origin names => exact (sites origin).2.1 _ names
      | exported enters answered exports names =>
          exact ((modules enters).2 _ answered).2 _ exports _ names

/-- Once the path of the key and its declarations are found, only these count. -/
theorem provides_iff_of_declared {key : Node} {ds : List Node}
    (path : key.staticPath? = .ok (some p)) (declared : unit.tree.declarationsOf p = .ok ds)
    (searched : ∀ q, unit.tree.SearchAsks p q → q.HasAnswer) :
    r.Provides unit key s ↔ ∀ d ∈ ds, r.Supplies unit p s d := by
  rw [provides_iff]
  constructor
  · rintro ⟨-, -, supplies⟩ d mem
    exact supplies p d ⟨path, ds, declared, mem⟩
  · intro h
    refine ⟨Node.isOk_staticPath?_iff.mp (Except.isOk_iff.mpr ⟨_, path⟩), fun p' path' => ?_, ?_⟩
    · cases path.symm.trans path'
      exact searched
    · rintro p' d ⟨path', ds', declared', mem⟩
      cases path.symm.trans path'
      cases declared.symm.trans declared'
      exact h d mem

/-- The texts of the segments of a path in a tree whose names are texts. -/
theorem isOk_dotted {tree key : Node} (named : tree.NamesAreTexts) (mem : key ∈ tree.walk)
    (path : key.staticPath? = .ok (some p)) : p.dotted.isOk ∧ p.root.isSimple := by
  obtain ⟨segments, -, texts, -⟩ := Node.exists_of_staticPath? named mem path none
  constructor
  · have shown : ∀ ts : List Text, (ts.map Value.text).mapM Value.text? = some ts := by
      intro ts
      induction ts with
      | nil => rfl
      | cons t rest ih => simp [List.mapM_cons, ih, Value.text?]
    rw [StaticPath.dotted, texts, shown]
    rfl
  · cases segments with
    | nil => cases texts
    | cons t rest =>
        have root : p.root = .text t := (List.cons.inj texts).1
        rw [root]
        rfl

/-- Without a declaration only the dump of the tree can fail. -/
theorem isOk_resolve_iff_of_undeclared {key : Node} (shown : p.dotted.isOk)
    (path : key.staticPath? = .ok (some p)) (declared : unit.tree.declarationsOf p = .ok []) :
    ((r.resolve unit key).result s).isOk ↔ r.CanDump unit key s := by
  obtain ⟨t, shown⟩ := Except.isOk_iff.mp shown
  rw [resolve, resolveThrough, path]
  change (Run.result (Fault.raise (unit.tree.declarationsOf p) >>= fun _ => _) s).isOk ↔ _
  rw [declared]
  change (Run.result (discard (Fault.raise p.dotted) >>= fun _ => _) s).isOk ↔ _
  rw [shown]
  cases debug : r.debugDir with
  | none =>
      refine iff_of_true rfl fun dir p' given => ?_
      cases debug.symm.trans given
  | some dir =>
      change (Run.result (dump dir unit >>= fun _ => pure _) s).isOk ↔ _
      rw [Run.isOk_result_bind_pure, isOk_dump_iff]
      refine ⟨fun h dir' p' given _ _ => ?_, fun h => h dir p debug path declared⟩
      cases debug.symm.trans given
      exact h

/-- With declarations nothing is dumped, and each of them has to contribute. -/
theorem isOk_resolve_iff_of_declared {key d : Node} {rest : List Node} (shown : p.dotted.isOk)
    (path : key.staticPath? = .ok (some p))
    (declared : unit.tree.declarationsOf p = .ok (d :: rest)) :
    ((r.resolve unit key).result s).isOk ↔ ∀ d' ∈ d :: rest, r.Supplies unit p s d' := by
  rw [resolve, resolveThrough, path]
  change (Run.result (Fault.raise (unit.tree.declarationsOf p) >>= fun _ => _) s).isOk ↔ _
  rw [declared]
  change ((r.evidence Run.loadModule unit p (d :: rest)).result s).isOk ↔ _
  rw [isOk_evidence_iff]
  refine forall_congr' fun d => forall_congr' fun mem => ?_
  have declares := ((Fault.mem_filter_iff declared).2 d).mp mem
  exact isOk_contribution_iff declares.2 shown

/-- Resolution of a key in a tree whose names are texts. -/
theorem isOk_resolve_iff {key : Node} (named : unit.tree.NamesAreTexts)
    (mem : key ∈ unit.tree.walk) :
    ((r.resolve unit key).result s).isOk ↔ r.CanDump unit key s ∧ r.Provides unit key s := by
  cases path : key.staticPath? with
  | error fault =>
      rw [resolve, resolveThrough, path]
      refine iff_of_false Bool.false_ne_true fun h => ?_
      have found := Node.isOk_staticPath?_iff.mpr fun q asks => h.2.answers q (.file (.path asks))
      rw [path] at found
      cases found
  | ok found =>
      have asked := Node.isOk_staticPath?_iff.mp (Except.isOk_iff.mpr ⟨found, path⟩)
      cases found with
      | none =>
          rw [resolve, resolveThrough, path, provides_iff]
          refine iff_of_true rfl ⟨?_, asked, ?_, ?_⟩
          · rintro dir p - path'
            cases path.symm.trans path'
          · intro p path'
            cases path.symm.trans path'
          · rintro p d ⟨path', -⟩
            cases path.symm.trans path'
      | some p =>
          obtain ⟨shown, root⟩ := isOk_dotted named mem path
          have searched := Node.isOk_declarationsOf_iff (p := p) named root
          cases declared : unit.tree.declarationsOf p with
          | error fault =>
              rw [resolve, resolveThrough, path]
              change (Run.result (Fault.raise (unit.tree.declarationsOf p) >>= fun _ => _) s).isOk ↔
                _
              rw [declared] at searched ⊢
              refine iff_of_false Bool.false_ne_true fun h => Bool.false_ne_true ?_
              exact searched.mpr fun q asks => h.2.answers q (.file (.search path asks))
          | ok ds =>
              have searched := searched.mp (Except.isOk_iff.mpr ⟨ds, declared⟩)
              rw [provides_iff_of_declared path declared searched]
              cases ds with
              | nil =>
                  rw [isOk_resolve_iff_of_undeclared shown path declared,
                    and_iff_left fun d mem => absurd mem List.not_mem_nil]
              | cons d rest =>
                  rw [isOk_resolve_iff_of_declared shown path declared, and_iff_right]
                  intro dir p' _ path' undeclared
                  cases path.symm.trans path'
                  cases declared.symm.trans undeclared

end Resolver

end EnvReads
