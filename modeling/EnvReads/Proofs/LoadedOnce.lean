import EnvReads.Module.Cache

/-!
# Modules are loaded once

A cache serves a sequence of operations: some add what a path holds, others ask for it. Its loader
is a computation in any monad. It may have a state, give something else for a path each time, and
fail, which ends the run.

Which operations miss the cache can be told from the sequence alone (`Cache.misses`): those that ask
for a path which no operation before is about. And the answers can be told from the sequence and the
results of these loads (`Cache.replies`). This is all that the table of a cache holds, and every
operation keeps it so (`Cache.Knows`). A run is then the loads of its misses, each path once and in
order, and nothing else has an effect.
-/

namespace EnvReads.Cache

variable {α β : Type} {m : Type → Type}

/-! ## Operations -/

/-- What a cache is used for. -/
inductive Operation (α : Type) where
  | add (path : Path) (x : α)
  | get (path : Path)

namespace Operation

def path : Operation α → Path
  | add path _ => path
  | get path => path

/-- The path that is asked for. -/
def asked? : Operation α → Option Path
  | add _ _ => none
  | get path => some path

/-- What is added for a path. -/
def added? (path : Path) : Operation α → Option α
  | add other x => if other = path then some x else none
  | get _ => none

/-- Whether an operation is about a path. -/
def isOn (path : Path) (op : Operation α) : Bool :=
  op.path = path

@[simp] theorem isOn_iff {op : Operation α} {path : Path} : op.isOn path ↔ op.path = path :=
  decide_eq_true_iff

@[simp] theorem path_add (path : Path) (x : α) : (add path x).path = path := rfl

@[simp] theorem path_get (path : Path) : (get path : Operation α).path = path := rfl

end Operation

/-- Performs operations one after another: each path that is asked for, with the answer. -/
def run [Monad m] (load : Path → m (Option α)) :
    Cache α → List (Operation α) → m (List (Path × Option α))
  | _, [] => pure []
  | cache, .add path x :: rest => run load (cache.add path x) rest
  | cache, .get path :: rest => do
    let found ← cache.get load path
    let more ← run load found.2 rest
    pure ((path, found.1) :: more)

/-- A loader that also notes each path it is called for. -/
def noting [Monad m] (load : Path → m (Option α)) (path : Path) :
    StateT (List Path) m (Option α) := do
  modify (· ++ [path])
  load path

/-- What the operations of a sequence come to, each taken with those before it. -/
def gather (f : List (Operation α) → Operation α → Option β) :
    List (Operation α) → List (Operation α) → List β
  | _, [] => []
  | before, op :: rest => (f before op).toList ++ gather f (before ++ [op]) rest

/-- The path that an operation asks for, if no operation before is about this path. -/
def miss? (before : List (Operation α)) (op : Operation α) : Option Path :=
  op.asked?.filter (· ∉ before.map Operation.path)

/-- The paths for which a loader is needed. -/
def misses (ops : List (Operation α)) : List Path :=
  gather miss? [] ops

/-- What was added last for a path. -/
def lastAdded? (path : Path) (ops : List (Operation α)) : Option α :=
  (ops.filterMap (Operation.added? path)).getLast?

/-- The answer for a path after some operations: what was added last, and if nothing was, what
loading the path has given. -/
def reply (loads : List (Path × Option α)) (before : List (Operation α)) (path : Path) : Option α :=
  (lastAdded? path before).or (loads.lookup path).join

/-- The answer to an operation, with the path that it asks for. -/
def reply? (loads : List (Path × Option α)) (before : List (Operation α)) (op : Operation α) :
    Option (Path × Option α) :=
  op.asked?.map fun path => (path, reply loads before path)

/-- The answers to a sequence of operations, given what was loaded. -/
def replies (loads : List (Path × Option α)) (ops : List (Operation α)) : List (Path × Option α) :=
  gather (reply? loads) [] ops

/-! ## What the table holds -/

/-- The table after the operations `before`, in which `loads` were loaded: it knows the paths that
these were about and no others, each with the answer that all later loads leave as it is. -/
structure Knows (cache : Cache α) (before : List (Operation α)) (loads : List (Path × Option α)) :
    Prop where
  known : ∀ path ∈ before.map Operation.path, ∀ later,
    cache.find? path = some (reply (loads ++ later) before path)
  unknown : ∀ path, path ∉ before.map Operation.path →
    cache.find? path = none ∧ loads.lookup path = none

section

variable {cache : Cache α} {before : List (Operation α)} {loads : List (Path × Option α)}
  {path other : Path}

/-- The paths of one more operation. -/
theorem mem_paths_append {op : Operation α} :
    path ∈ (before ++ [op]).map Operation.path ↔
      path ∈ before.map Operation.path ∨ path = op.path := by
  rw [List.map_append, List.mem_append, List.map_singleton, List.mem_singleton]

/-- A unit that is added counts from then on. -/
theorem lastAdded?_append_add (before : List (Operation α)) (path other : Path) (x : α) :
    lastAdded? other (before ++ [.add path x]) =
      if other = path then some x else lastAdded? other before := by
  by_cases same : other = path
  · simp [lastAdded?, Operation.added?, same]
  · simp [lastAdded?, Operation.added?, same, Ne.symm same]

/-- A question changes no reply. -/
theorem reply_append_get (loads : List (Path × Option α)) (before : List (Operation α))
    (path other : Path) : reply loads (before ++ [.get path]) other = reply loads before other := by
  simp [reply, lastAdded?, Operation.added?]

/-- Nothing was added at a path if no operation adds there. -/
theorem lastAdded?_eq_none_iff :
    lastAdded? path before = none ↔ ∀ x, .add path x ∉ before := by
  rw [lastAdded?, List.getLast?_eq_none_iff, List.filterMap_eq_nil_iff]
  constructor
  · intro absent x mem
    have := absent _ mem
    simp [Operation.added?] at this
  · intro h op mem
    cases op with
    | add other x =>
        refine if_neg fun same => ?_
        cases same
        exact h x mem
    | get other => rfl

/-- A path that no operation was about is answered by its load. -/
theorem reply_of_load (new : path ∉ before.map Operation.path)
    (unloaded : loads.lookup path = none) (result : Option α) (later : List (Path × Option α)) :
    reply (loads ++ (path, result) :: later) before path = result := by
  have nothing : lastAdded? path before = none :=
    lastAdded?_eq_none_iff.mpr fun x mem => new (List.mem_map.mpr ⟨_, mem, rfl⟩)
  rw [reply, nothing, List.lookup_append, unloaded]
  simp

/-- An empty cache knows nothing. -/
theorem knows_empty : Knows (empty : Cache α) [] [] :=
  ⟨fun _ mem => by simp at mem, fun _ _ => ⟨rfl, rfl⟩⟩

namespace Knows

/-- A cache that is told of a unit knows it. -/
theorem add (h : Knows cache before loads) (path : Path) (x : α) :
    Knows (cache.add path x) (before ++ [.add path x]) loads where
  known := by
    intro other mem later
    rw [Cache.add, find?_insert, reply, lastAdded?_append_add]
    by_cases same : other = path
    · rw [if_pos same, if_pos same]
      rfl
    · rw [if_neg same, if_neg same]
      exact h.known other ((mem_paths_append.mp mem).resolve_right same) later
  unknown := by
    intro other new
    obtain ⟨new, (differs : other ≠ path)⟩ := not_or.mp (mt mem_paths_append.mpr new)
    rw [Cache.add, find?_insert, if_neg differs]
    exact h.unknown other new

/-- To ask for what is known changes nothing. -/
theorem again (h : Knows cache before loads) (mem : path ∈ before.map Operation.path) :
    Knows cache (before ++ [.get path]) loads where
  known := by
    intro other about later
    rw [reply_append_get]
    rcases mem_paths_append.mp about with earlier | now
    · exact h.known other earlier later
    · exact now ▸ h.known path mem later
  unknown := fun other new => h.unknown other (not_or.mp (mt mem_paths_append.mpr new)).1

/-- What is loaded for a new path is known from then on. -/
theorem load (h : Knows cache before loads) (new : path ∉ before.map Operation.path)
    (result : Option α) :
    Knows (cache.insert path result) (before ++ [.get path]) (loads ++ [(path, result)]) where
  known := by
    intro other about later
    rw [find?_insert, reply_append_get, List.append_assoc]
    by_cases same : other = path
    · subst same
      rw [if_pos rfl, List.singleton_append, reply_of_load new (h.unknown other new).2]
    · rw [if_neg same]
      exact h.known other ((mem_paths_append.mp about).resolve_right same) _
  unknown := by
    intro other unseen
    obtain ⟨unseen, (differs : other ≠ path)⟩ := not_or.mp (mt mem_paths_append.mpr unseen)
    obtain ⟨absent, unloaded⟩ := h.unknown other unseen
    rw [find?_insert, if_neg differs, List.lookup_append, unloaded, List.lookup_cons,
      beq_eq_false_iff_ne.mpr differs]
    exact ⟨absent, rfl⟩

end Knows

end

/-! ## Runs -/

section

variable {before : List (Operation α)} {path : Path}

/-- A question is a miss if nothing was done at its path before. -/
theorem miss?_eq_some_iff {op : Operation α} :
    miss? before op = some path ↔ op = .get path ∧ path ∉ before.map Operation.path := by
  cases op with
  | add other x => simp [miss?, Operation.asked?]
  | get other =>
      rw [miss?, Operation.asked?, Option.filter_eq_some_iff]
      simp only [Option.some.injEq, decide_eq_true_eq, Operation.get.injEq]

theorem miss?_of_mem (mem : path ∈ before.map Operation.path) : miss? before (.get path) = none :=
  Option.filter_some_neg (by simpa using mem)

variable [Monad m] [LawfulMonad m] (load : Path → m (Option α)) {cache : Cache α}

/-- What is known is answered without loading. -/
theorem run_get_of_some {known : Option α} (h : cache.find? path = some known)
    (rest : List (Operation α)) :
    cache.run load (.get path :: rest) = ((path, known) :: ·) <$> cache.run load rest := by
  simp [run, Cache.get, h]

/-- What is not known is loaded, and known from then on. -/
theorem run_get_of_none (h : cache.find? path = none) (rest : List (Operation α)) :
    cache.run load (.get path :: rest) =
      load path >>= fun result =>
        ((path, result) :: ·) <$> (cache.insert path result).run load rest := by
  simp [run, Cache.get, h]

/-- Noting paths does not change what loading gives. -/
theorem run_mapM_noting (paths noted : List Path) :
    (paths.mapM (noting load)).run noted =
      (fun results => (results, noted ++ paths)) <$> paths.mapM load := by
  induction paths generalizing noted with
  | nil => simp
  | cons path rest ih => simp [noting, ih]

/-- A run from a table is the loads of the paths that it does not know. -/
theorem run_of_knows (ops : List (Operation α)) {loads : List (Path × Option α)}
    (h : Knows cache before loads) :
    cache.run load ops =
      (fun results =>
        gather (reply? (loads ++ (gather miss? before ops).zip results)) before ops) <$>
      (gather miss? before ops).mapM load := by
  induction ops generalizing cache before loads with
  | nil => simp [run, gather]
  | cons op rest ih =>
      cases op with
      | add path x => rw [run, ih (h.add path x)]; rfl
      | get path =>
          by_cases mem : path ∈ before.map Operation.path
          · -- What the table knows does not depend on the loads still to come.
            have same (later : List (Path × Option α)) :
                reply (loads ++ []) before path = reply (loads ++ later) before path :=
              Option.some.inj ((h.known path mem []).symm.trans (h.known path mem later))
            rw [run_get_of_some load (h.known path mem []), ih (h.again mem), gather,
              miss?_of_mem mem, Functor.map_map]
            exact congrArg (· <$> _) (funext fun results => by rw [same]; rfl)
          · -- The path is the first that is missed; its result goes to the table and to the loads.
            obtain ⟨absent, unloaded⟩ := h.unknown path mem
            rw [run_get_of_none load absent, gather, miss?_eq_some_iff.mpr ⟨rfl, mem⟩,
              Option.toList_some, List.singleton_append, List.mapM_cons, map_bind]
            refine bind_congr fun result => ?_
            rw [ih (h.load mem result), Functor.map_map, map_bind]
            simp only [map_pure, bind_pure_comp]
            refine congrArg (· <$> _) (funext fun results => ?_)
            rw [gather, reply?, Operation.asked?, Option.map_some, List.zip_cons_cons,
              reply_of_load mem unloaded, List.append_assoc]
            rfl

end

/-! ## Operations with those before them -/

section

variable {f : List (Operation α) → Operation α → Option β} {before : List (Operation α)}

/-- What operations give is gathered one list after the other. -/
theorem gather_append (f : List (Operation α) → Operation α → Option β)
    (before ops more : List (Operation α)) :
    gather f before (ops ++ more) = gather f before ops ++ gather f (before ++ ops) more := by
  induction ops generalizing before with
  | nil => simp [gather]
  | cons op rest ih => simp [gather, ih]

/-- What is gathered comes from one operation after those before it. -/
theorem mem_gather_iff {ops : List (Operation α)} {b : β} :
    b ∈ gather f before ops ↔
      ∃ earlier op later, ops = earlier ++ op :: later ∧ f (before ++ earlier) op = some b := by
  constructor
  · intro mem
    induction ops generalizing before with
    | nil => cases mem
    | cons op rest ih =>
        rcases List.mem_append.mp mem with here | there
        · exact ⟨[], op, rest, rfl, by simpa using here⟩
        · obtain ⟨earlier, next, later, rfl, gives⟩ := ih there
          exact ⟨op :: earlier, next, later, rfl, by simpa using gives⟩
  · rintro ⟨earlier, op, later, rfl, gives⟩
    rw [gather_append]
    exact List.mem_append_right _ (List.mem_append_left _ (Option.mem_toList.mpr gives))

/-- If an operation comes to something that only depends on the operations on its own path, then
all operations on a path come to the same without the others. -/
theorem filter_gather (key : β → Path)
    (keyed : ∀ before op b, f before op = some b → key b = op.path)
    (own : ∀ before op, f (before.filter (·.isOn op.path)) op = f before op)
    (path : Path) (before ops : List (Operation α)) :
    (gather f before ops).filter (key · = path) =
      gather f (before.filter (·.isOn path)) (ops.filter (·.isOn path)) := by
  induction ops generalizing before with
  | nil => rfl
  | cons op rest ih =>
      rw [gather, List.filter_append, ih]
      by_cases same : op.path = path
      · have all : (f before op).toList.filter (key · = path) = (f before op).toList := by
          refine List.filter_eq_self.mpr fun b gives => ?_
          simp [keyed before op b (Option.mem_toList.mp gives), same]
        rw [all, List.filter_cons_of_pos (by simpa using same), gather, ← same, own before op]
        simp
      · have others : (f before op).toList.filter (key · = path) = [] := by
          refine List.filter_eq_nil_iff.mpr fun b gives => ?_
          simp [keyed before op b (Option.mem_toList.mp gives), same]
        rw [others, List.filter_cons_of_neg (by simpa using same)]
        simp [same]

/-! ### Misses -/

/-- The misses are the questions at whose path nothing was done before. -/
theorem mem_gather_miss?_iff {ops : List (Operation α)} {path : Path} :
    path ∈ gather miss? before ops ↔ ∃ earlier later, ops = earlier ++ .get path :: later ∧
      path ∉ (before ++ earlier).map Operation.path := by
  simp only [mem_gather_iff, miss?_eq_some_iff]
  constructor
  · rintro ⟨earlier, op, later, split, rfl, new⟩
    exact ⟨earlier, later, split, new⟩
  · rintro ⟨earlier, later, split, new⟩
    exact ⟨earlier, .get path, later, split, rfl, new⟩

/-- No path is missed twice. -/
theorem nodup_gather_miss? (before ops : List (Operation α)) : (gather miss? before ops).Nodup := by
  induction ops generalizing before with
  | nil => exact .nil
  | cons op rest ih =>
      rw [gather]
      cases missed : miss? before op with
      | none => exact ih _
      | some path =>
          obtain ⟨rfl, -⟩ := miss?_eq_some_iff.mp missed
          refine List.nodup_cons.mpr ⟨fun again => ?_, ih _⟩
          obtain ⟨earlier, -, -, new⟩ := mem_gather_miss?_iff.mp again
          exact new (by simp)

/-- A miss is at the path of its operation. -/
theorem eq_path_of_miss? {op : Operation α} {path : Path} (h : miss? before op = some path) :
    path = op.path := by
  obtain ⟨rfl, -⟩ := miss?_eq_some_iff.mp h
  rfl

/-- Whether a question is a miss depends on the operations at its path only. -/
theorem miss?_filter (before : List (Operation α)) (op : Operation α) :
    miss? (before.filter (·.isOn op.path)) op = miss? before op := by
  refine Option.ext fun path => ?_
  rw [miss?_eq_some_iff, miss?_eq_some_iff]
  refine and_congr_right ?_
  rintro rfl
  simp

/-- A path that is asked for is missed, unless something is added for it first. -/
theorem mem_misses_of_get {path : Path} (after : List (Operation α))
    (h : lastAdded? path before = none) : path ∈ misses (before ++ .get path :: after) := by
  refine mem_gather_miss?_iff.mpr ?_
  by_cases mem : path ∈ before.map Operation.path
  · -- The first operation on the path adds nothing, so it asks for the path.
    obtain ⟨paths, others, split, new⟩ := List.eq_append_cons_of_mem mem
    obtain ⟨earlier, rest, rfl, rfl, first⟩ := List.map_eq_append_iff.mp split
    obtain ⟨op, later, rfl, same, -⟩ := List.map_eq_cons_iff.mp first
    cases op with
    | add other x =>
        cases same
        exact absurd (by simp) (lastAdded?_eq_none_iff.mp h x)
    | get other =>
        cases same
        exact ⟨earlier, later ++ .get other :: after, by simp, new⟩
  · exact ⟨before, after, rfl, mem⟩

/-! ### Replies -/

/-- What was added last depends on the operations at the path only. -/
theorem lastAdded?_filter (path : Path) (before : List (Operation α)) :
    lastAdded? path (before.filter (·.isOn path)) = lastAdded? path before := by
  rw [lastAdded?, lastAdded?, List.filterMap_filter]
  congr 2
  funext op
  cases op with
  | add other x =>
      by_cases same : other = path
      · simp [same]
      · simp [Operation.added?, same]
  | get other => exact ite_self none

theorem eq_path_of_reply? {loads : List (Path × Option α)} {op : Operation α}
    {answer : Path × Option α} (h : reply? loads before op = some answer) :
    answer.1 = op.path := by
  cases op with
  | add path x => cases h
  | get path =>
      cases h
      rfl

theorem reply_filter (loads : List (Path × Option α)) (before : List (Operation α)) (path : Path) :
    reply loads (before.filter (·.isOn path)) path = reply loads before path := by
  rw [reply, lastAdded?_filter, reply]

/-- The reply to an operation depends on those at its path only. -/
theorem reply?_filter (loads : List (Path × Option α)) (before : List (Operation α))
    (op : Operation α) :
    reply? loads (before.filter (·.isOn op.path)) op = reply? loads before op := by
  cases op with
  | add path x => rfl
  | get path => exact congrArg (fun answer => some (path, answer)) (reply_filter loads before path)

end

/-- A run calls its loader for the paths that it misses, one after another, and has no other effect;
so a loader that notes its calls has noted these paths. No path is missed twice, and a path is
missed exactly if some operation asks for it before any other is about it. An operation that asks
for a path is answered what was added last for it, and if nothing was, what the one load of this
path has given, be it nothing. What operations on a path miss and are answered does not change if
all operations on other paths are left out. -/
theorem run_loads_once [Monad m] [LawfulMonad m] (load : Path → m (Option α))
    (ops : List (Operation α)) :
    empty.run load ops =
        (fun results => replies ((misses ops).zip results) ops) <$> (misses ops).mapM load ∧
      (empty.run (noting load) ops).run [] =
        (fun answers => (answers, misses ops)) <$> empty.run load ops ∧
      (misses ops).Nodup ∧
      (∀ path, path ∈ misses ops ↔ ∃ before after, ops = before ++ .get path :: after ∧
        path ∉ before.map Operation.path) ∧
      (∀ before path after, ops = before ++ .get path :: after →
        (lastAdded? path before = none → path ∈ misses ops) ∧
        ∀ loads, ∃ later, replies loads ops = replies loads before ++
          (path, (lastAdded? path before).or (loads.lookup path).join) :: later) ∧
      ∀ path, (misses ops).filter (· = path) = misses (ops.filter (·.isOn path)) ∧
        ∀ loads, (replies loads ops).filter (·.1 = path) =
          replies loads (ops.filter (·.isOn path)) := by
  refine ⟨run_of_knows load ops knows_empty, ?_, nodup_gather_miss? [] ops,
    fun path => mem_gather_miss?_iff, ?_, fun path => ⟨?_, fun loads => ?_⟩⟩
  · rw [run_of_knows (noting load) ops knows_empty, run_of_knows load ops knows_empty,
      StateT.run_map, run_mapM_noting, Functor.map_map, Functor.map_map]
    rfl
  · rintro before path after rfl
    refine ⟨mem_misses_of_get after, fun loads => ?_⟩
    rw [replies, gather_append]
    exact ⟨_, rfl⟩
  · exact filter_gather id (fun _ _ _ => eq_path_of_miss?) miss?_filter path [] ops
  · exact filter_gather Prod.fst (fun _ _ _ => eq_path_of_reply?) (reply?_filter loads) path [] ops

end EnvReads.Cache

namespace EnvReads

namespace Sample

/-- A loader that notes each path. Of `gone.js` it gives nothing, of any other path the number of
paths it has noted. -/
def countingLoad (path : Path) : StateM (List Path) (Option Nat) := do
  modify (· ++ [path])
  let noted ← get
  return if path = "gone.js" then none else some noted.length

def cacheUse : List (Cache.Operation Nat) :=
  [.get "a.js", .get "gone.js", .get "a.js", .get "gone.js", .add "gone.js" 7, .get "gone.js",
    .add "b.js" 8, .get "b.js", .add "a.js" 9, .add "a.js" 10, .get "a.js", .get "c.js"]

end Sample

open Sample in
theorem Cache.run_loads_once_counting :
    LawfulMonad (StateM (List Path)) ∧
      ((Cache.empty.run countingLoad cacheUse).run []).run =
        (([("a.js", some 1), ("gone.js", none), ("a.js", some 1), ("gone.js", none),
          ("gone.js", some 7), ("b.js", some 8), ("a.js", some 10), ("c.js", some 3)] :
            List (Path × Option Nat)), (["a.js", "gone.js", "c.js"] : List Path)) := by
  refine ⟨inferInstance, ?_⟩
  rw [(run_loads_once countingLoad cacheUse).1]
  decide +kernel

end EnvReads
