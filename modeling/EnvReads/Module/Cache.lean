import EnvReads.Path

/-!
# The cache of modules

What has been loaded, by path. A path that gave nothing is remembered too, so no path is loaded
twice.
-/

namespace EnvReads

/-- What is known of each path; the entries added last come first. -/
structure Cache (α : Type) where
  entries : List (Path × Option α)

namespace Cache

variable {α : Type} {m : Type → Type}

def empty : Cache α :=
  ⟨[]⟩

/-- What is known of a path: nothing, or what it gave. -/
def find? (cache : Cache α) (path : Path) : Option (Option α) :=
  cache.entries.lookup path

def insert (cache : Cache α) (path : Path) (result : Option α) : Cache α :=
  ⟨(path, result) :: cache.entries⟩

theorem find?_insert (cache : Cache α) (path other : Path) (result : Option α) :
    (cache.insert path result).find? other =
      if other = path then some result else cache.find? other := by
  rw [find?, insert, List.lookup_cons]
  by_cases same : other = path
  · simp [same]
  · rw [if_neg same, beq_eq_false_iff_ne.mpr same]
    rfl

/-- Adds what a path holds. -/
def add (cache : Cache α) (path : Path) (x : α) : Cache α :=
  cache.insert path (some x)

/-- What a path holds, loaded if nothing is known of it. -/
def get [Monad m] (load : Path → m (Option α)) (cache : Cache α) (path : Path) :
    m (Option α × Cache α) :=
  match cache.find? path with
  | some known => pure (known, cache)
  | none => do
    let loaded ← load path
    pure (loaded, cache.insert path loaded)

end Cache

end EnvReads
