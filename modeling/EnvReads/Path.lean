import EnvReads.Text.Lower

/-!
# Paths

A path is an anchor and a list of components, which some text spells. Repeated and final slashes and
the component `.` are dropped when a path is read; `..` is kept until `Path.normalize`. Two leading
slashes, and no more than two, are an anchor of their own.
-/

namespace EnvReads

/-- Where a path starts. -/
inductive Anchor where
  | relative
  | root
  | doubleRoot
deriving DecidableEq

namespace Anchor

def toText : Anchor → Text
  | relative => ""
  | root => "/"
  | doubleRoot => "//"

/-- The anchor of a text. -/
def ofText (t : Text) : Anchor :=
  match (t.takeWhile (· = CodePoint.slash)).length with
  | 0 => relative
  | 2 => doubleRoot
  | _ => root

end Anchor

namespace Path

/-- What can be a component of a path. -/
structure IsPart (t : Text) : Prop where
  nonempty : t ≠ []
  notDot : t ≠ "."
  whole : CodePoint.slash ∉ t

instance (t : Text) : Decidable (IsPart t) :=
  decidable_of_iff (t ≠ [] ∧ t ≠ "." ∧ CodePoint.slash ∉ t)
    ⟨fun h => ⟨h.1, h.2.1, h.2.2⟩, fun h => ⟨h.nonempty, h.notDot, h.whole⟩⟩

end Path

@[ext] structure Path where
  anchor : Anchor
  parts : List Text
  spelled : ∀ part ∈ parts, Path.IsPart part
deriving DecidableEq

namespace Path

/-- The components that a text spells. -/
def partsOf (t : Text) : List Text :=
  (t.splitOn CodePoint.slash).filter fun part => !part.isEmpty && part != "."

theorem isPart_of_mem_partsOf {t part : Text} (h : part ∈ partsOf t) : IsPart part := by
  obtain ⟨mem, kept⟩ := List.mem_filter.mp h
  simp only [Bool.and_eq_true, Bool.not_eq_true', List.isEmpty_eq_false_iff, bne_iff_ne] at kept
  exact ⟨kept.1, kept.2, Text.not_mem_of_mem_splitOn mem⟩

def ofText (t : Text) : Path where
  anchor := Anchor.ofText t
  parts := partsOf t
  spelled _ := isPart_of_mem_partsOf

instance : Coe String Path := ⟨fun s => ofText s⟩

/-- The path without components that leads to where it is seen from. -/
def here : Path :=
  ⟨.relative, [], List.forall_mem_nil _⟩

def toText (p : Path) : Text :=
  match p.anchor, p.parts with
  | .relative, [] => "."
  | anchor, parts => anchor.toText ++ Text.joinWith "/" parts

def isAbsolute (p : Path) : Bool :=
  p.anchor != .relative

/-- The path `q` seen from `p`: an absolute path stays as it is. -/
def join (p q : Path) : Path :=
  if q.isAbsolute then q
  else ⟨p.anchor, p.parts ++ q.parts, List.forall_mem_append.mpr ⟨p.spelled, q.spelled⟩⟩

/-- The path of an entry in a directory. -/
def child (p : Path) (name : Text) : Path :=
  p.join (ofText name)

def parent (p : Path) : Path where
  anchor := p.anchor
  parts := p.parts.dropLast
  spelled part mem := p.spelled part ((List.dropLast_sublist _).subset mem)

/-- All shorter paths, the longest first. -/
def ancestors (p : Path) : List Path :=
  (List.range p.parts.length).reverse.map fun n =>
    ⟨p.anchor, p.parts.take n, fun part mem => p.spelled part (List.mem_of_mem_take mem)⟩

/-- The last component; empty for an anchor alone. -/
def name (p : Path) : Text :=
  p.parts.getLast?.getD []

/-- The end of a name from its last dot, unless that dot is its first or its last member. -/
def suffixOfName (name : Text) : Text :=
  let tail := (name.reverse.takeWhile (· != CodePoint.dot)).reverse
  if tail.isEmpty || name.length ≤ tail.length + 1 then [] else CodePoint.dot :: tail

def suffix (p : Path) : Text :=
  suffixOfName p.name

/-- The rest of `p` below `root`, compared by whole components. -/
def relativeTo? (p root : Path) : Option Path :=
  if p.anchor = root.anchor ∧ root.parts.isPrefixOf p.parts then
    some ⟨.relative, p.parts.drop root.parts.length, fun part mem =>
      p.spelled part (List.mem_of_mem_drop mem)⟩
  else
    none

/-- What `..` makes of the components kept so far, last first: it takes one back. At an anchor there
is nothing to take back; a relative path keeps a leading `..`. -/
def stepBack (absolute : Bool) : List Text → List Text
  | [] => if absolute then [] else [".."]
  | last :: before => if last = ".." then ".." :: last :: before else before

/-- What a component makes of the components kept so far, last first. -/
def keep (absolute : Bool) (kept : List Text) (part : Text) : List Text :=
  if part = ".." then stepBack absolute kept else part :: kept

/-- The components with `..` resolved. -/
def normalizeParts (absolute : Bool) (parts : List Text) : List Text :=
  (parts.foldl (keep absolute) []).reverse

theorem keep_sublist (absolute : Bool) (kept : List Text) (part : Text) :
    (keep absolute kept part).reverse.Sublist (kept.reverse ++ [part]) := by
  have less : (keep absolute kept part).Sublist (part :: kept) := by
    rw [keep]
    split
    · next back =>
        cases kept with
        | nil =>
            rw [stepBack, back]
            split <;> simp
        | cons last before =>
            rw [stepBack, back]
            split <;> simp
    · exact .refl _
  rw [← List.reverse_cons]
  exact less.reverse

theorem foldl_keep_sublist (absolute : Bool) (kept parts : List Text) :
    (parts.foldl (keep absolute) kept).reverse.Sublist (kept.reverse ++ parts) := by
  induction parts generalizing kept with
  | nil => simp
  | cons part parts ih =>
      rw [List.foldl_cons, List.append_cons]
      exact (ih _).trans ((keep_sublist absolute kept part).append_right parts)

theorem normalizeParts_sublist (absolute : Bool) (parts : List Text) :
    (normalizeParts absolute parts).Sublist parts :=
  foldl_keep_sublist absolute [] parts

/-- Resolves `..` without looking at any file. -/
def normalize (p : Path) : Path where
  anchor := p.anchor
  parts := normalizeParts p.isAbsolute p.parts
  spelled part mem := p.spelled part ((normalizeParts_sublist _ _).subset mem)

/-- The absolute path of `p` in the directory `cwd`, with `..` resolved. -/
def resolve (cwd p : Path) : Path where
  anchor := .root
  parts := normalizeParts true (cwd.join p).parts
  spelled part mem := (cwd.join p).spelled part ((normalizeParts_sublist _ _).subset mem)

/-- Paths are ordered by their components. -/
def le (p q : Path) : Bool :=
  ¬q.parts < p.parts

end Path

/-- How a report shows a path: relative to `root` if it lies below it. -/
def displayPath (root : Option Path) (p : Path) : Text :=
  match root.bind p.relativeTo? with
  | some relative => relative.toText
  | none => p.toText

end EnvReads
