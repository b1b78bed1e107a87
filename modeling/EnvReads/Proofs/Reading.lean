import EnvReads.Declaration.Resolve
import EnvReads.Proofs.Outcome

/-!
# Runs that only read

A run reads modules through the cache of its session. Which modules are already there makes no
difference to what it finds, as long as the session gives the same answers (`Session.answer`): a
computation that only reads (`Run.Reads`) gives the same result in all sessions that are alike, and
leaves a session alike. Resolution of computed keys only reads, unless it writes a tree to the debug
directory.
-/

namespace EnvReads

namespace Session

/-- What the session gives when it is asked for a module: what its cache knows, or else what the
file has. -/
def answer (s : Session) (path : Path) : Except Fault (Option SourceUnit) :=
  match s.modules.find? path with
  | some known => .ok known
  | none => SourceUnit.loadModule s.files path

/-- Sessions with the same files and the same answers, whatever is in their caches. -/
structure Alike (s t : Session) : Prop where
  files : s.files = t.files
  answer : s.answer = t.answer

namespace Alike

/-- A session is like itself. -/
theorem refl (s : Session) : Alike s s := ⟨rfl, rfl⟩

theorem symm {s t : Session} (h : Alike s t) : Alike t s := ⟨h.files.symm, h.answer.symm⟩

/-- Sessions that are like a third are alike. -/
theorem trans {s t u : Session} (h : Alike s t) (h' : Alike t u) : Alike s u :=
  ⟨h.files.trans h'.files, h.answer.trans h'.answer⟩

end Alike

/-- To remember an answer does not change the answers. -/
theorem alike_insert {s : Session} {path : Path} {known : Option SourceUnit}
    (h : s.answer path = .ok known) :
    Alike { s with modules := s.modules.insert path known } s := by
  refine ⟨rfl, funext fun other => ?_⟩
  by_cases same : other = path
  · rw [same, h]
    simp [answer, Cache.find?_insert]
  · simp [answer, Cache.find?_insert, same]

end Session

section

variable {ε σ α : Type}

/-! The operations on a state, as functions of it. -/

/-- Reading the state, spelled out. -/
theorem get_eq : (get : EStateM ε σ σ) = fun s => .ok s s := rfl

/-- Replacing the state, spelled out. -/
theorem set_eq (t : σ) : (set t : EStateM ε σ PUnit) = fun _ => .ok ⟨⟩ t := rfl

/-- Raising a fault, spelled out. -/
theorem throw_eq (e : ε) : (throw e : EStateM ε σ α) = fun s => .error e s := rfl

end

/-- A chain of two steps ends well if both do, the second from where the first left off. -/
theorem bind_apply_eq_ok_iff {ε σ α β : Type} {m : EStateM ε σ α} {f : α → EStateM ε σ β} {s u : σ}
    {b : β} : (m >>= f) s = .ok b u ↔ ∃ a t, m s = .ok a t ∧ f a t = .ok b u := by
  simp only [bind, EStateM.bind]
  cases m s <;> simp [and_assoc]

/-- A computation without a state leaves every state as it is. -/
theorem raise_apply_eq_ok_iff {σ α : Type} {e : Except Fault α} {s t : σ} {a : α} :
    (Fault.raise e : EStateM Fault σ α) s = .ok a t ↔ e = .ok a ∧ s = t := by
  cases e with
  | error fault => simp [Fault.raise, throw_eq]
  | ok b => simp [Fault.raise, pure, EStateM.pure]

/-- What a run gives if it ends well. -/
theorem run'_eq_some_iff {ε σ α : Type} {m : EStateM ε σ α} {s : σ} {a : α} :
    m.run' s = some a ↔ ∃ t, m s = .ok a t := by
  delta EStateM.run' EStateM.run
  cases m s <;> simp

/-- A run that gives something ends well. -/
theorem exists_ok_of_isSome {ε σ α : Type} {m : EStateM ε σ α} {s : σ} (h : (m.run' s).isSome) :
    ∃ a t, m s = .ok a t := by
  obtain ⟨a, eq⟩ := Option.isSome_iff_exists.mp h
  exact ⟨a, run'_eq_some_iff.mp eq⟩

namespace Run

open Session (Alike)

variable {α β : Type}

/-- What a run gives. -/
def result (m : Run α) (s : Session) : Except Fault α :=
  match m s with
  | .ok a _ => .ok a
  | .error fault _ => .error fault

/-- The session that a run leaves. -/
def after (m : Run α) (s : Session) : Session :=
  match m s with
  | .ok _ t => t
  | .error _ t => t

/-- A run is known by its result and the session that it leaves. -/
theorem eq_ok_iff {m : Run α} {s t : Session} {a : α} :
    m s = .ok a t ↔ m.result s = .ok a ∧ m.after s = t := by
  rw [result, after]
  cases m s <;> simp

/-- The result of a chain: the second run starts where the first ended. -/
theorem result_bind (m : Run α) (f : α → Run β) (s : Session) :
    (m >>= f).result s = m.result s >>= fun a => (f a).result (m.after s) := by
  simp only [result, after, bind, EStateM.bind]
  cases m s <;> rfl

/-- The session that a chain leaves, which is that of the first run if it fails. -/
theorem after_bind (m : Run α) (f : α → Run β) (s : Session) :
    (m >>= f).after s =
      (m.result s).toOption.elim (m.after s) fun a => (f a).after (m.after s) := by
  simp only [result, after, bind, EStateM.bind]
  cases m s <;> rfl

@[simp] theorem result_pure (a : α) (s : Session) : (pure a : Run α).result s = .ok a := rfl

@[simp] theorem after_pure (a : α) (s : Session) : (pure a : Run α).after s = s := rfl

/-- A computation that is raised gives what it gave before. -/
@[simp] theorem result_raise (e : Except Fault α) (s : Session) :
    Run.result (Fault.raise e) s = e := by
  cases e <;> rfl

/-- A computation that is raised leaves the session alone. -/
@[simp] theorem after_raise (e : Except Fault α) (s : Session) :
    Run.after (Fault.raise e) s = s := by
  cases e <;> rfl

/-- A chain has a result if the second run has it after the first. -/
theorem result_bind_eq_ok_iff {m : Run α} {f : α → Run β} {s : Session} {b : β} :
    (m >>= f).result s = .ok b ↔ ∃ a, m.result s = .ok a ∧ (f a).result (m.after s) = .ok b := by
  rw [result_bind, Except.bind_eq_ok_iff]

/-- A chain that starts with a computation continues in the same session. -/
theorem result_raise_bind_eq_ok_iff {e : Except Fault α} {f : α → Run β} {s : Session} {b : β} :
    Run.result (Fault.raise e >>= f) s = .ok b ↔ ∃ a, e = .ok a ∧ (f a).result s = .ok b := by
  rw [result_bind_eq_ok_iff, result_raise, after_raise]

/-- A question to the files is answered by the files of the session. -/
theorem result_ofFiles (f : FileSystem → Except Fault α) (s : Session) :
    Run.result (do let session ← get; Fault.raise (f session.files)) s = f s.files := by
  change Run.result (Fault.raise (f s.files)) s = f s.files
  rw [result_raise]

/-- A question to the files leaves the session alone. -/
theorem after_ofFiles (f : FileSystem → Except Fault α) (s : Session) :
    Run.after (do let session ← get; Fault.raise (f session.files)) s = s := by
  change Run.after (Fault.raise (f s.files)) s = s
  rw [after_raise]

/-- A run whose result is dropped fails as before. -/
theorem result_discard (m : Run α) (s : Session) :
    Run.result (discard m) s = (m.result s).map fun _ => () := by
  change Run.result (m >>= fun _ => pure ()) s = _
  rw [result_bind]
  cases m.result s <;> rfl

/-- Two chains run alike in a session if their steps do. -/
theorem bind_congr_at {m m' : Run α} {f f' : α → Run β} {s : Session} (first : m s = m' s)
    (later : ∀ a t, m s = .ok a t → f a t = f' a t) : (m >>= f) s = (m' >>= f') s := by
  simp only [bind, EStateM.bind, ← first]
  cases run : m s with
  | ok a t => exact later a t run
  | error fault t => rfl

/-- A chain gives the same in two sessions if its steps do. -/
theorem result_bind_congr {m : Run α} {f : α → Run β} {s t : Session}
    (first : m.result s = m.result t)
    (later : ∀ a, m.result s = .ok a → (f a).result (m.after s) = (f a).result (m.after t)) :
    (m >>= f).result s = (m >>= f).result t := by
  rw [result_bind, result_bind, ← first]
  cases given : m.result s with
  | error fault => rfl
  | ok a => exact later a given

/-- A chain that starts with a computation gives the same in two sessions if its second run does. -/
theorem result_raise_bind_congr {e : Except Fault α} {f : α → Run β} {s t : Session}
    (later : ∀ a, e = .ok a → (f a).result s = (f a).result t) :
    Run.result (Fault.raise e >>= f) s = Run.result (Fault.raise e >>= f) t := by
  cases e with
  | error fault => rfl
  | ok a => exact later a rfl

/-- In a run over a list, each member is met in the session that the members before it leave. -/
theorem result_of_mapM {f : α → Run β} {xs : List α} {ys : List β} {s : Session}
    (h : (xs.mapM f).result s = .ok ys) {i : Nat} {x : α} {y : β} (member : xs[i]? = some x)
    (given : ys[i]? = some y) : (f x).result (Run.after ((xs.take i).mapM f) s) = .ok y := by
  induction xs generalizing ys i s with
  | nil => cases member
  | cons z rest ih =>
      rw [List.mapM_cons] at h
      obtain ⟨w, first, h⟩ := result_bind_eq_ok_iff.mp h
      obtain ⟨ws, later, h⟩ := result_bind_eq_ok_iff.mp h
      cases h
      cases i with
      | zero =>
          cases member
          cases given
          exact first
      | succ i =>
          have before : Run.after (((z :: rest).take (i + 1)).mapM f) s =
              Run.after ((rest.take i).mapM f) ((f z).after s) := by
            rw [List.take_succ_cons, List.mapM_cons, after_bind, first]
            change Run.after (_ >>= fun us => pure (w :: us)) _ = _
            rw [after_bind]
            cases Run.result ((rest.take i).mapM f) ((f z).after s) <;> rfl
          rw [before]
          exact ih later member given

/-- A computation that depends on the files and answers of its session only, and changes neither. -/
structure Reads (m : Run α) : Prop where
  result_eq : ∀ {s t : Session}, Alike s t → m.result s = m.result t
  alike : ∀ s : Session, Alike (m.after s) s

namespace Reads

theorem pure (a : α) : Reads (Pure.pure a : Run α) :=
  ⟨fun _ => rfl, Alike.refl⟩

/-- A computation without a session only reads. -/
theorem raise (e : Except Fault α) : Reads (Fault.raise e) :=
  ⟨fun _ => by simp, fun s => by simpa using Alike.refl s⟩

theorem bind {m : Run α} {f : α → Run β} (h : Reads m) (h' : ∀ a, Reads (f a)) :
    Reads (m >>= f) where
  result_eq := by
    intro s t same
    rw [result_bind, result_bind, h.result_eq same]
    have later : Alike (m.after s) (m.after t) := ((h.alike s).trans same).trans (h.alike t).symm
    exact bind_congr fun a => (h' a).result_eq later
  alike := by
    intro s
    rw [after_bind]
    cases m.result s with
    | error fault => exact h.alike s
    | ok a => exact ((h' a).alike (m.after s)).trans (h.alike s)

/-- A question about the files. -/
theorem ofFiles (f : FileSystem → Except Fault α) :
    Reads (do let session ← get; Fault.raise (f session.files)) where
  result_eq := by
    intro s t same
    change Run.result (Fault.raise (f s.files)) s = Run.result (Fault.raise (f t.files)) t
    rw [result_raise, result_raise, same.files]
  alike := by
    intro s
    change Alike (Run.after (Fault.raise (f s.files)) s) s
    rw [after_raise]
    exact .refl s

/-- Runs that only read, one for each member of a list, only read. -/
theorem mapM {f : α → Run β} (h : ∀ a, Reads (f a)) (xs : List α) : Reads (xs.mapM f) := by
  induction xs with
  | nil =>
      rw [List.mapM_nil]
      exact pure []
  | cons x rest ih =>
      rw [List.mapM_cons]
      exact (h x).bind fun y => ih.bind fun ys => pure (y :: ys)

end Reads

/-- What a session answers for a module is what it loads. -/
theorem loadModule_eq (path : Path) (s : Session) :
    (loadModule path).result s = s.answer path ∧ Alike ((loadModule path).after s) s := by
  cases known : s.modules.find? path with
  | some found =>
      have answer : s.answer path = .ok found := by rw [Session.answer, known]
      have run : loadModule path s = .ok found s := by
        simp [loadModule, Cache.get, known, get_eq, set_eq, bind, EStateM.bind, pure, EStateM.pure]
      rw [result, after, run, answer]
      exact ⟨rfl, .refl s⟩
  | none =>
      have answer : s.answer path = SourceUnit.loadModule s.files path := by
        rw [Session.answer, known]
      cases load : SourceUnit.loadModule s.files path with
      | error fault =>
          have run : loadModule path s = .error fault s := by
            simp [loadModule, Cache.get, known, load, Fault.raise, get_eq, bind, EStateM.bind,
              throw_eq]
          rw [result, after, run, answer, load]
          exact ⟨rfl, .refl s⟩
      | ok found =>
          have run : loadModule path s =
              .ok found { s with modules := s.modules.insert path found } := by
            simp [loadModule, Cache.get, known, load, Fault.raise, get_eq, set_eq, bind,
              EStateM.bind, pure, EStateM.pure]
          rw [result, after, run]
          refine ⟨?_, Session.alike_insert ?_⟩ <;> rw [answer, load]

/-- Loading a module only adds to the cache what it would answer anyway. -/
theorem Reads.loadModule (path : Path) : Reads (loadModule path) where
  result_eq := by
    intro s t same
    rw [(loadModule_eq path s).1, (loadModule_eq path t).1, same.answer]
  alike s := (loadModule_eq path s).2

end Run

open Run (Reads)

/-! ## Resolution only reads -/

namespace Origin

/-- A module is looked up in the files of the session. -/
theorem result_locate (specifier : Text) (importer : Path) (s : Session) :
    (locate (some specifier) importer).result s = Module.lookup s.files.view specifier importer :=
  Run.result_ofFiles (fun files => Module.lookup files.view specifier importer) s

/-- Looking a module up leaves the session alone. -/
theorem after_locate (specifier : Option Text) (importer : Path) (s : Session) :
    (locate specifier importer).after s = s := by
  cases specifier with
  | none => rfl
  | some specifier =>
      exact Run.after_ofFiles (fun files => Module.lookup files.view specifier importer) s

/-- Looking a module up only reads. -/
theorem reads_locate (specifier : Option Text) (importer : Path) :
    Reads (locate specifier importer) := by
  cases specifier with
  | none => exact .pure none
  | some specifier => exact .ofFiles fun files => Module.lookup files.view specifier importer

/-- Finding the sites of an origin only reads, if entering modules does. -/
theorem reads_sites {enter : Enter} (h : ∀ target p, Reads (enter target p)) (path : Path)
    (origin : Origin) : Reads (origin.sites enter path) := by
  cases origin with
  | nothing => exact .pure []
  | literal value place => exact (Reads.raise place.span?).bind fun _ => .pure _
  | unknown place => exact (Reads.raise place.span?).bind fun _ => .pure _
  | imported specifier keys place =>
      refine (reads_locate specifier path).bind fun located => ?_
      cases located with
      | none => exact (Reads.raise place.span?).bind fun _ => .pure _
      | some target =>
          simp only
          cases ExportPath.ofList? keys with
          | none => exact .pure _
          | some p => exact (h target p).bind fun _ => .pure _

end Origin

/-- Finding the sites of exported values only reads, if entering modules does. -/
theorem reads_exportSites {enter : Enter} (h : ∀ target p, Reads (enter target p))
    (unit : SourceUnit) (values : List (Option Node × List Value)) :
    Reads (exportSites enter unit values) := by
  induction values with
  | nil => exact .pure []
  | cons entry rest ih =>
      obtain ⟨value, keys⟩ := entry
      refine (Reads.raise (Node.originOf value keys)).bind fun origin => ?_
      exact (origin.reads_sites h unit.path).bind fun _ => ih.bind fun _ => .pure _

theorem Enter.reads_hops (n : Nat) (target : Path) (p : ExportPath) :
    Reads (Enter.hops Run.loadModule n target p) := by
  induction n generalizing target p with
  | zero => exact .pure []
  | succ n ih =>
      refine (Reads.loadModule target).bind fun found => ?_
      cases found with
      | none => exact .pure []
      | some unit =>
          exact (Reads.raise (unit.tree.exports p)).bind fun values =>
            reads_exportSites ih unit values

namespace Resolver

variable (r : Resolver) (unit : SourceUnit)

theorem reads_enter (target : Path) (p : ExportPath) : Reads (r.enter Run.loadModule target p) := by
  rw [enter]
  split
  · exact Enter.reads_hops 1 target p
  · exact .pure []

theorem reads_declarationEvidence (p : StaticPath) (declaration : Node) :
    Reads (r.declarationEvidence Run.loadModule unit p declaration) := by
  refine (Reads.raise (declaration.declarationOrigin? p)).bind fun found => ?_
  cases found with
  | none => exact (Reads.raise (unsupported declaration p)).bind fun _ => .pure _
  | some origin => exact (origin.reads_sites r.reads_enter unit.path).bind fun _ => .pure _

theorem reads_evidence (p : StaticPath) (declarations : List Node) :
    Reads (r.evidence Run.loadModule unit p declarations) := by
  induction declarations with
  | nil => exact .pure _
  | cons d rest ih =>
      exact (r.reads_declarationEvidence unit p d).bind fun _ => ih.bind fun _ => .pure _

variable {r}

/-- Without a debug directory resolution only reads. -/
theorem reads_resolve (h : r.debugDir = none) (key : Node) : Reads (r.resolve unit key) := by
  refine (Reads.raise key.staticPath?).bind fun path => ?_
  cases path with
  | none => exact .pure _
  | some p =>
      refine (Reads.raise (unit.tree.declarationsOf p)).bind fun declarations => ?_
      cases declarations with
      | nil =>
          simp only [h]
          exact ((Reads.raise p.dotted).bind fun _ => .pure _).bind fun _ => .pure _
      | cons d rest => exact r.reads_evidence unit p (d :: rest)

theorem reads_record (h : r.debugDir = none) (c : Candidate) : Reads (r.record unit c) := by
  rw [record]
  split
  · exact (reads_resolve unit h c.key).bind fun _ => .raise _
  · exact (Reads.pure _).bind fun _ => .raise _

theorem reads_analyze (h : r.debugDir = none) : Reads (r.analyze unit) :=
  (Reads.raise (Candidate.find unit.tree)).bind fun candidates =>
    .mapM (reads_record unit h) candidates

end Resolver

end EnvReads
