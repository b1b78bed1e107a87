import EnvReads.Listing
import EnvReads.Proofs.FollowedPaths

/-!
# The files that a listing has

A listing has the files below its root that have a wanted suffix and are not ignored, where no
directory on the way to them is ignored either, in the strict order of their paths. The walk through
the tree already gives them in this order, since names of a directory come in order and differ. Two
things keep a listing from having exactly these files (`Selection.list_exact_iff_reachable`): its
filter may not load, and a walk does not come to what cannot be listed or looked at.
-/

namespace EnvReads

open Except (Ensures)

namespace Entry

/-! ## Members of a directory -/

section

variable {α β : Type} {members : List (Text × α)} {name : Text} {a : α}

theorem sameName_self (t : Text) : sameName t t := by
  simp [sameName]

/-- What can be reached is what is found by its name. -/
theorem mem_named_iff : (name, a) ∈ named members ↔
    IsName name ∧ members.find? (fun member => sameName member.1 name) = some (name, a) := by
  induction members with
  | nil => simp [named]
  | cons member rest ih =>
      obtain ⟨first, b⟩ := member
      have others : (name, a) ∈ ((named rest).filter fun other => !sameName first other.1) ↔
          ¬sameName first name ∧ (name, a) ∈ named rest := by
        rw [List.mem_filter, Bool.not_eq_true', Bool.not_eq_true, and_comm]
      rw [named, List.find?_cons]
      by_cases same : sameName first name
      · rw [same]
        split
        · next isName =>
            simp only [List.mem_cons, others, same, not_true_eq_false, false_and, or_false,
              Option.some.injEq]
            constructor
            · intro eq
              cases eq
              exact ⟨isName, rfl⟩
            · rintro ⟨-, eq⟩
              exact eq.symm
        · next isName =>
            simp only [others, same, not_true_eq_false, false_and, Option.some.injEq, false_iff]
            rintro ⟨isName', eq⟩
            cases eq
            exact isName isName'
      · rw [Bool.not_eq_true] at same
        rw [same]
        have other : (name, a) ≠ (first, b) := by
          intro eq
          cases eq
          rw [sameName_self] at same
          cases same
        split
        · simp [others, same, other, ih]
        · simp [others, same, ih]

/-- No two members that can be reached have the same name. -/
theorem pairwise_named (members : List (Text × α)) :
    (named members).Pairwise fun a b => a.1 ≠ b.1 := by
  induction members with
  | nil => exact .nil
  | cons member rest ih =>
      obtain ⟨first, b⟩ := member
      have others := ih.filter fun other => !sameName first other.1
      rw [named]
      split
      · refine List.pairwise_cons.mpr ⟨fun other mem same => ?_, others⟩
        obtain ⟨name, c⟩ := other
        cases same
        simp [sameName_self] at mem
      · exact others

/-- Which members can be reached depends on their names only. -/
theorem named_map (f : α → β) (members : List (Text × α)) :
    named (members.map fun member => (member.1, f member.2)) =
      (named members).map fun member => (member.1, f member.2) := by
  induction members with
  | nil => rfl
  | cons member rest ih =>
      simp only [List.map_cons, named, ih, List.filter_map, Function.comp_def]
      split <;> rfl

end

variable {e : Entry} {entries : List Entry}

/-- The entries of a directory that can be reached. -/
def members (entries : List Entry) : List Entry :=
  (named (entries.map fun e => (e.name, e))).map Prod.snd

/-- An entry is reached under its own name. -/
theorem eq_name_of_mem_named {name : Text}
    (h : (name, e) ∈ named (entries.map fun e => (e.name, e))) : name = e.name := by
  obtain ⟨-, found⟩ := mem_named_iff.mp h
  obtain ⟨e', -, eq⟩ := List.mem_map.mp (List.mem_of_find?_eq_some found)
  cases eq
  rfl

/-- What can be reached of things that belong to entries belongs to entries that can be. -/
theorem named_eq_members {β : Type} (f : Entry → β) (entries : List Entry) :
    named (entries.map fun e => (e.name, f e)) =
      (members entries).map fun e => (e.name, f e) := by
  have mapped := named_map f (entries.map fun e => (e.name, e))
  rw [List.map_map] at mapped
  rw [members, List.map_map]
  refine mapped.trans (List.map_congr_left fun member mem => ?_)
  exact congrArg (·, f member.2) (eq_name_of_mem_named mem)

/-- The entries that can be reached are those that are found under their own name. -/
theorem mem_members_iff : e ∈ members entries ↔ IsName e.name ∧ find? entries e.name = some e := by
  have found : (entries.map fun e => (e.name, e)).find? (fun member => sameName member.1 e.name) =
      some (e.name, e) ↔ find? entries e.name = some e := by
    rw [List.find?_map, Option.map_eq_some_iff]
    constructor
    · rintro ⟨e', found, eq⟩
      rwa [(Prod.mk.inj eq).2] at found
    · intro found
      exact ⟨e, found, rfl⟩
  rw [members, List.mem_map, ← found, ← mem_named_iff]
  constructor
  · rintro ⟨⟨name, e'⟩, mem, rfl⟩
    cases eq_name_of_mem_named mem
    exact mem
  · intro mem
    exact ⟨_, mem, rfl⟩

theorem mem_of_mem_members (h : e ∈ members entries) : e ∈ entries :=
  List.mem_of_find?_eq_some (mem_members_iff.mp h).2

/-- No two entries that can be reached have the same name. -/
theorem pairwise_members (entries : List Entry) :
    (members entries).Pairwise fun a b => a.name ≠ b.name := by
  refine List.pairwise_map.mpr ((pairwise_named _).imp_of_mem fun {a b} memA memB other => ?_)
  rwa [← eq_name_of_mem_named memA, ← eq_name_of_mem_named memB]

/-- Entries by their names. -/
def sortByName (entries : List Entry) : List Entry :=
  entries.mergeSort fun a b => ¬b.name < a.name

@[simp] theorem mem_sortByName : e ∈ sortByName entries ↔ e ∈ entries :=
  List.mem_mergeSort

/-- Names that differ are in strict order when sorted. -/
theorem pairwise_sortByName (distinct : entries.Pairwise fun a b => a.name ≠ b.name) :
    (sortByName entries).Pairwise fun a b => a.name < b.name := by
  have ordered : (sortByName entries).Pairwise fun a b => decide (¬b.name < a.name) := by
    refine List.pairwise_mergeSort (fun a b c first second => ?_) (fun a b => ?_) _
    · exact decide_eq_true (List.le_trans (of_decide_eq_true first) (of_decide_eq_true second))
    · rw [Bool.or_eq_true, decide_eq_true_eq, decide_eq_true_eq]
      exact List.le_total a.name b.name
  have different : (sortByName entries).Pairwise fun a b => a.name ≠ b.name :=
    (List.mergeSort_perm entries _).pairwise_iff (fun other => other.symm) |>.mpr distinct
  refine (ordered.and different).imp ?_
  rintro a b ⟨le, ne⟩
  refine Decidable.byContradiction fun not => ne ?_
  exact List.le_antisymm (of_decide_eq_true le) not

/-! ## Trees of entries -/

/-- An entry stands below another, where the names lead. -/
inductive Below : Entry → List Text → Entry → Prop
  | here {e : Entry} : Below e [] e
  | step {e below : Entry} {name : Text} {permissions : Permissions} {entries : List Entry}
      {names : List Text} (member : e ∈ members entries) (rest : Below e names below) :
      Below (.directory name permissions entries) (e.name :: names) below

/-- The names lead to a directory. -/
def IsPlace (tree : Entry) (names : List Text) : Prop :=
  ∃ d, tree.Below names d ∧ d.isDirectory

/-- A property of entries that directories take over from what they hold. -/
theorem induction {motive : Entry → Prop}
    (file : ∀ name content, motive (.file name content))
    (directory : ∀ name permissions entries, (∀ e ∈ entries, motive e) →
      motive (.directory name permissions entries)) : ∀ e, motive e
  | .file name content => file name content
  | .directory name permissions entries =>
    directory name permissions entries fun e _ => induction file directory e
termination_by e => sizeOf e
decreasing_by
  have := List.sizeOf_lt_of_mem ‹e ∈ entries›
  simp only [Entry.directory.sizeOf_spec]
  omega

section

variable {a b : Entry} {names more : List Text}

/-- The names on the way down can be components of a path. -/
theorem areParts_of_below (h : e.Below names b) : Path.AreParts names := by
  induction h with
  | here => exact List.forall_mem_nil _
  | step member _ ih => exact Path.areParts_cons_iff.mpr ⟨(mem_members_iff.mp member).1.1, ih⟩

/-- The first step down from a directory. -/
theorem below_cons_iff {name first : Text} {permissions : Permissions} :
    (Entry.directory name permissions entries).Below (first :: names) b ↔
      ∃ e ∈ members entries, e.name = first ∧ e.Below names b := by
  constructor
  · rintro (_ | ⟨member, rest⟩)
    exact ⟨_, member, rfl, rest⟩
  · rintro ⟨e, member, rfl, rest⟩
    exact .step member rest

/-- A way down can be cut anywhere. -/
theorem below_append_iff : e.Below (names ++ more) b ↔ ∃ a, e.Below names a ∧ a.Below more b := by
  constructor
  · intro below
    induction names generalizing e with
    | nil => exact ⟨e, .here, below⟩
    | cons first names ih =>
        cases below with
        | step member rest =>
            obtain ⟨a, before, after⟩ := ih rest
            exact ⟨a, .step member before, after⟩
  · rintro ⟨a, before, after⟩
    induction before with
    | here => exact after
    | step member _ ih => exact .step member (ih after)

/-- Names lead to one entry at most. -/
theorem below_unique (first : e.Below names a) (second : e.Below names b) : a = b := by
  induction first with
  | here =>
      cases second
      rfl
  | step member _ ih =>
      obtain ⟨other, member', same, rest'⟩ := below_cons_iff.mp second
      obtain ⟨-, found⟩ := mem_members_iff.mp member
      obtain ⟨-, found'⟩ := mem_members_iff.mp member'
      rw [same, found] at found'
      cases found'
      exact ih rest'

/-- Only a directory has something below it. -/
theorem isDirectory_of_below {first : Text} (below : e.Below (first :: names) b) :
    e.isDirectory := by
  cases below
  rfl

end

/-! ## Files of a tree -/

variable {fs : FileSystem} {prune : Path → Bool} {p q : Path}

/-- What an entry of a directory contributes: a pruned directory has nothing. -/
def contribution (fs : FileSystem) (prune : Path → Bool) (e : Entry) (p : Path) : List Path :=
  if e.isDirectory && prune p then [] else e.files fs prune p

/-- Each entry of a directory is listed by itself. -/
theorem listings_eq (entries : List Entry) :
    listings fs prune entries = entries.map fun e => (e.name, contribution fs prune e) := by
  induction entries with
  | nil => rfl
  | cons e rest ih =>
      rw [listings, ih]
      rfl

/-- What a walk finds in a directory is what its members contribute, in the order of their names, as
far as they can be seen. -/
theorem files_directory (name : Text) (permissions : Permissions) (entries : List Entry)
    (p : Path) : files fs prune (.directory name permissions entries) p =
      if (fs.list p).isOk then
        (sortByName (members entries)).flatMap fun e =>
          if (fs.entry (p.child e.name)).isOk then contribution fs prune e (p.child e.name) else []
      else [] := by
  have order : (((members entries).map fun e => (e.name, contribution fs prune e)).mergeSort
      fun a b => ¬b.1 < a.1) =
        (sortByName (members entries)).map fun e => (e.name, contribution fs prune e) := by
    rw [sortByName, List.map_mergeSort]
    intro a _ b _
    rfl
  rw [files, listings_eq, named_eq_members, order, List.flatMap_map]

/-- A file is found in a directory if one of its members contributes it. -/
theorem mem_files_directory_iff {name : Text} {permissions : Permissions} :
    q ∈ files fs prune (.directory name permissions entries) p ↔ (fs.list p).isOk ∧
      ∃ e ∈ members entries, (fs.entry (p.child e.name)).isOk ∧
        q ∈ contribution fs prune e (p.child e.name) := by
  rw [files_directory]
  split
  · next listed =>
      simp only [listed, true_and, List.mem_flatMap, mem_sortByName]
      refine exists_congr fun e => and_congr_right fun _ => ?_
      split <;> simp [*]
  · next unlisted => simp [unlisted]

/-- A member contributes its files, unless it is a directory that is pruned. -/
theorem mem_contribution_iff : q ∈ contribution fs prune e p ↔
    (e.isDirectory → ¬prune p) ∧ q ∈ e.files fs prune p := by
  rw [contribution]
  split
  · next pruned =>
      obtain ⟨isDirectory, pruned⟩ := Bool.and_eq_true_iff.mp pruned
      simp [isDirectory, pruned]
  · next passed =>
      refine (and_iff_right fun isDirectory pruned => passed ?_).symm
      rw [isDirectory, pruned]
      rfl

/-- None of the directories between a path and what the names lead to is pruned. -/
def Open (prune : Path → Bool) (p : Path) (names : List Text) : Prop :=
  ∀ ds rest, names = ds ++ rest → ds ≠ [] → rest ≠ [] → ¬prune (p.below ds)

theorem open_nil : Open prune p [] := by
  intro ds rest eq inner
  exact absurd (List.append_eq_nil_iff.mp eq.symm).1 inner

/-- A way is open if its first directory is not pruned and the rest is open. -/
theorem open_cons_iff {name : Text} {names : List Text} :
    Open prune p (name :: names) ↔
      (names ≠ [] → ¬prune (p.child name)) ∧ Open prune (p.child name) names := by
  constructor
  · intro all
    refine ⟨fun more => all [name] names rfl (by simp) more, fun ds rest eq _ more => ?_⟩
    rw [Path.below_child]
    exact all (name :: ds) rest (by rw [eq, List.cons_append]) (by simp) more
  · rintro ⟨here, later⟩ ds rest eq inner more
    cases ds with
    | nil => exact absurd rfl inner
    | cons first ds =>
        rw [List.cons_append, List.cons.injEq] at eq
        obtain ⟨rfl, rfl⟩ := eq
        rw [← Path.below_child]
        cases ds with
        | nil =>
            rw [Path.below_nil]
            exact here more
        | cons second ds => exact later (second :: ds) rest rfl (by simp) more

end Entry

namespace FileSystem

variable {fs : FileSystem} {p : Path} {name : Text} {names more : List Text}

/-- All directories that are passed from a path on, it included, can be listed. -/
def ListsTo (fs : FileSystem) (p : Path) (names : List Text) : Prop :=
  ∀ ds rest, names = ds ++ rest → rest ≠ [] → (fs.list (p.below ds)).isOk

theorem listsTo_nil : fs.ListsTo p [] := by
  intro ds rest eq more
  exact absurd (List.append_eq_nil_iff.mp eq.symm).2 more

/-- The directories on a way can be listed if the first can and the others can. -/
theorem listsTo_cons_iff :
    fs.ListsTo p (name :: names) ↔ (fs.list p).isOk ∧ fs.ListsTo (p.child name) names := by
  constructor
  · intro all
    refine ⟨all [] _ rfl (by simp), fun ds rest eq more => ?_⟩
    rw [Path.below_child]
    exact all (name :: ds) rest (by rw [eq, List.cons_append]) more
  · rintro ⟨here, later⟩ ds rest eq more
    cases ds with
    | nil => exact here
    | cons first ds =>
        rw [List.cons_append, List.cons.injEq] at eq
        obtain ⟨rfl, rfl⟩ := eq
        rw [← Path.below_child]
        exact later ds rest rfl more

/-- One more name needs one more directory that can be listed. -/
theorem listsTo_concat_iff :
    fs.ListsTo p (names ++ [name]) ↔ fs.ListsTo p names ∧ (fs.list (p.below names)).isOk := by
  induction names generalizing p with
  | nil => simp [listsTo_cons_iff, listsTo_nil, Path.below_nil]
  | cons first names ih =>
      rw [List.cons_append, listsTo_cons_iff, listsTo_cons_iff, ih, Path.below_child, and_assoc]

/-- What can be listed to the end can be listed part of the way. -/
theorem ListsTo.of_append (h : fs.ListsTo p (names ++ more)) : fs.ListsTo p names := by
  intro ds rest eq inner
  refine h ds (rest ++ more) ?_ (by simp [inner])
  rw [eq, List.append_assoc]

/-- A directory that can be listed is there. -/
theorem isOk_entry_of_list (h : (fs.list p).isOk) : (fs.entry p).isOk := by
  obtain ⟨entries, listed⟩ := Except.isOk_iff.mp h
  obtain ⟨name, permissions, found, -⟩ := list_eq_ok_iff.mp listed
  rw [found]
  rfl

/-- A walk from a path comes to what the names lead to: each directory on the way can be listed, and
what it has there can be looked at. -/
structure Reaches (fs : FileSystem) (p : Path) (names : List Text) : Prop where
  lists : fs.ListsTo p names
  entry : names ≠ [] → (fs.entry (p.below names)).isOk

/-- A walk comes to what is below a directory if it can list the directory, can see the next entry,
and comes on from there. -/
theorem reaches_cons_iff : fs.Reaches p (name :: names) ↔
    (fs.list p).isOk ∧ (fs.entry (p.child name)).isOk ∧ fs.Reaches (p.child name) names := by
  constructor
  · rintro ⟨lists, entry⟩
    obtain ⟨here, later⟩ := listsTo_cons_iff.mp lists
    have last := entry (by simp)
    refine ⟨here, ?_, later, fun _ => last⟩
    cases names with
    | nil => exact last
    | cons second names => exact isOk_entry_of_list (listsTo_cons_iff.mp later).1
  · rintro ⟨here, entry, lists, last⟩
    refine ⟨listsTo_cons_iff.mpr ⟨here, lists⟩, fun _ => ?_⟩
    cases names with
    | nil => exact entry
    | cons second names => exact last (by simp)

end FileSystem

namespace Entry

variable {fs : FileSystem} {prune : Path → Bool} {e : Entry} {p q : Path}

/-- A file stands below an entry at the path, past no pruned directory, where a walk comes. -/
def Holds (fs : FileSystem) (prune : Path → Bool) (e : Entry) (p q : Path) : Prop :=
  ∃ names name content, e.Below names (.file name content) ∧ q = p.below names ∧
    Open prune p names ∧ fs.Reaches p names

/-- The files of a tree are those that the walk comes to past no pruned directory. -/
theorem mem_files_iff : q ∈ e.files fs prune p ↔ e.Holds fs prune p q := by
  induction e using induction generalizing p with
  | file name content =>
      rw [files, List.mem_singleton]
      constructor
      · rintro rfl
        exact ⟨[], name, content, .here, (Path.below_nil _).symm, open_nil,
          FileSystem.listsTo_nil, fun inner => absurd rfl inner⟩
      · rintro ⟨names, name, content, ⟨⟩, rfl, -⟩
        exact Path.below_nil _
  | directory name permissions entries ih =>
      rw [mem_files_directory_iff]
      constructor
      · rintro ⟨listed, e, member, entry, mem⟩
        obtain ⟨passed, mem⟩ := mem_contribution_iff.mp mem
        obtain ⟨names, name, content, below, rfl, passes, reaches⟩ :=
          (ih e (mem_of_mem_members member)).mp mem
        refine ⟨e.name :: names, name, content, .step member below, Path.below_child _ _ _,
          open_cons_iff.mpr ⟨fun more => ?_, passes⟩,
          FileSystem.reaches_cons_iff.mpr ⟨listed, entry, reaches⟩⟩
        obtain ⟨first, names, rfl⟩ := List.exists_cons_of_ne_nil more
        exact passed (isDirectory_of_below below)
      · rintro ⟨names, name, content, below, rfl, passes, reaches⟩
        cases below with
        | @step e _ _ _ _ names member below =>
            obtain ⟨listed, entry, reaches⟩ := FileSystem.reaches_cons_iff.mp reaches
            obtain ⟨passed, passes⟩ := open_cons_iff.mp passes
            refine ⟨listed, e, member, entry, mem_contribution_iff.mpr ⟨fun isDirectory => ?_, ?_⟩⟩
            · refine passed ?_
              rintro rfl
              cases below
              cases isDirectory
            · exact (ih e (mem_of_mem_members member)).mpr
                ⟨names, name, content, below, (Path.below_child _ _ _).symm, passes, reaches⟩

/-- The walk through a tree gives paths in their strict order. -/
theorem pairwise_files (e : Entry) (p : Path) :
    (e.files fs prune p).Pairwise fun q r => q.parts < r.parts := by
  induction e using induction generalizing p with
  | file name content =>
      rw [files]
      exact List.pairwise_singleton _ _
  | directory name permissions entries ih =>
      rw [files_directory]
      split
      · rw [List.pairwise_flatMap]
        constructor
        · intro e member
          have inside := ih e (mem_of_mem_members (mem_sortByName.mp member)) (p.child e.name)
          split
          · rw [contribution]
            split
            · exact .nil
            · exact inside
          · exact .nil
        · refine (pairwise_sortByName (pairwise_members entries)).imp_of_mem ?_
          intro a b memberA memberB less q first r second
          -- What two entries contribute differs where their names do.
          have split {e : Entry} {q : Path} (member : e ∈ sortByName (members entries))
              (mem : q ∈ if (fs.entry (p.child e.name)).isOk then
                contribution fs prune e (p.child e.name) else []) :
              ∃ names, q.parts = p.parts ++ e.name :: names := by
            split at mem
            · obtain ⟨names, _, _, below, rfl, -⟩ :=
                mem_files_iff.mp (mem_contribution_iff.mp mem).2
              have isName := (mem_members_iff.mp (mem_sortByName.mp member)).1
              refine ⟨names, ?_⟩
              rw [Path.parts_below (areParts_of_below below), Path.parts_child isName.1,
                List.append_assoc]
              rfl
            · cases mem
          obtain ⟨names, eqQ⟩ := split memberA first
          obtain ⟨others, eqR⟩ := split memberB second
          rw [eqQ, eqR]
          exact List.append_left_lt (.rel less)
      · exact .nil

end Entry

namespace IgnoreFilter

variable {m : Matcher} {fs : FileSystem}

/-! ## Filters that can be loaded -/

/-- Each entry of a directory is visited by itself. -/
theorem visits_eq (entries : List Entry) :
    visits m fs entries = entries.map fun e => (e.name, e.isDirectory, visit m fs e) := by
  induction entries with
  | nil => rfl
  | cons e rest ih => rw [visits, ih, List.map_cons]

/-- The directories among entries that the walk goes into. -/
def entered (f : IgnoreFilter) (p : Path) (entries : List Entry) : List Entry :=
  (Entry.members entries).filter fun e => e.isDirectory && !f.ignoresDirectory (p.child e.name)

/-- In a directory that can be listed its own ignore file is read first, and then the directories in
it that are not ignored are visited in the order of their names. -/
theorem visit_directory (name : Text) (permissions : Permissions) (entries : List Entry) (p : Path)
    (f : IgnoreFilter) : visit m fs (.directory name permissions entries) p f =
      if (fs.list p).isOk then
        readIn m fs p f >>= fun f => (Entry.sortByName (entered f p entries)).foldlM
          (fun f e => visit m fs e (p.child e.name) f) f
      else .ok f := by
  have kept (f : IgnoreFilter) : ((Entry.named (visits m fs entries)).filter fun named =>
      named.2.1 && !f.ignoresDirectory (p.child named.1)) =
        (entered f p entries).map fun e => (e.name, e.isDirectory, visit m fs e) := by
    rw [visits_eq, Entry.named_eq_members, List.filter_map]
    rfl
  have order (f : IgnoreFilter) :
      (((entered f p entries).map fun e => (e.name, e.isDirectory, visit m fs e)).mergeSort
        fun a b => ¬b.1 < a.1) = (Entry.sortByName (entered f p entries)).map fun e =>
          (e.name, e.isDirectory, visit m fs e) := by
    rw [Entry.sortByName, List.map_mergeSort]
    intro a _ b _
    rfl
  rw [visit]
  simp only [kept, order, List.foldlM_map]

theorem mem_members_of_mem_entered {f : IgnoreFilter} {p : Path} {e : Entry} {entries : List Entry}
    (h : e ∈ Entry.sortByName (entered f p entries)) : e ∈ Entry.members entries :=
  (List.mem_filter.mp (Entry.mem_sortByName.mp h)).1

/-- Directories are visited in the order of their names. -/
theorem pairwise_entered (f : IgnoreFilter) (p : Path) (entries : List Entry) :
    (Entry.sortByName (entered f p entries)).Pairwise fun a b => a.name < b.name :=
  Entry.pairwise_sortByName ((Entry.pairwise_members entries).sublist List.filter_sublist)

/-- A directory in the tree at a path has an ignore file with lines that cannot be compiled. -/
def FailsIn (m : Matcher) (fs : FileSystem) (p : Path) (tree : Entry) (fault : Fault) : Prop :=
  ∃ names t, tree.IsPlace names ∧ fs.readText ((p.below names).child fileName) = .ok t ∧
    m.compile t.lines = .error fault

/-- Reading an ignore file fails only if its lines cannot be compiled. -/
theorem compile_of_readIn {p : Path} {f : IgnoreFilter} {fault : Fault}
    (h : readIn m fs p f = .error fault) :
    ∃ t, fs.readText (p.child fileName) = .ok t ∧ m.compile t.lines = .error fault := by
  rw [readIn] at h
  split at h
  · cases h
  · split at h
    · cases h
    · next t read =>
        refine ⟨t, read, ?_⟩
        cases compiled : m.compile t.lines with
        | error fault' =>
            rw [compiled] at h
            exact congrArg Except.error (Except.error.inj h)
        | ok rules =>
            rw [compiled] at h
            cases h

/-- A run of steps fails at one of them. -/
theorem exists_of_foldlM_error {α β ε : Type} {f : β → α → Except ε β} {xs : List α} {b : β}
    {fault : ε} (h : xs.foldlM f b = .error fault) : ∃ x ∈ xs, ∃ b, f b x = .error fault := by
  induction xs generalizing b with
  | nil => cases h
  | cons x rest ih =>
      rw [List.foldlM_cons] at h
      cases first : f b x with
      | error other =>
          rw [first] at h
          cases h
          exact ⟨x, .head _, b, first⟩
      | ok next =>
          rw [first] at h
          obtain ⟨y, member, later⟩ := ih h
          exact ⟨y, .tail _ member, later⟩

/-- Reading the ignore files of a tree fails only if one of them cannot be compiled. -/
theorem failsIn_of_visit {e : Entry} {p : Path} {f : IgnoreFilter} {fault : Fault}
    (h : visit m fs e p f = .error fault) : FailsIn m fs p e fault := by
  induction e using Entry.induction generalizing p f with
  | file name content => cases h
  | directory name permissions entries ih =>
      rw [visit_directory] at h
      split at h
      · cases read : readIn m fs p f with
        | error other =>
            rw [read] at h
            cases h
            obtain ⟨t, text, fails⟩ := compile_of_readIn read
            exact ⟨[], t, ⟨_, .here, rfl⟩, text, fails⟩
        | ok g =>
            rw [read] at h
            obtain ⟨e, member, f, fails⟩ := exists_of_foldlM_error h
            have member := mem_members_of_mem_entered member
            obtain ⟨names, t, ⟨d, below, isDirectory⟩, text, fails⟩ :=
              ih e (Entry.mem_of_mem_members member) fails
            exact ⟨e.name :: names, t, ⟨d, .step member below, isDirectory⟩, text, fails⟩
      · cases h

/-- A filter can be loaded unless its own ignore file cannot be looked for, or the lines that count
in the root or one of the ignore files below it cannot be compiled. -/
theorem fails_of_load {root : Path} {nested : Bool} {fault : Fault}
    (h : load m fs root nested = .error fault) :
    rootLines fs root = .error fault ∨
      (∃ lines, rootLines fs root = .ok lines ∧ m.compile lines = .error fault) ∨
      ∃ tree, fs.entry root = .ok tree ∧ FailsIn m fs root tree fault := by
  rw [load] at h
  cases lines : rootLines fs root with
  | error other =>
      rw [lines] at h
      cases h
      exact .inl rfl
  | ok lines' =>
      rw [lines] at h
      cases compiled : m.compile lines' with
      | error other =>
          simp only [bind, Except.bind, compiled] at h
          cases h
          exact .inr (.inl ⟨lines', rfl, compiled⟩)
      | ok rules =>
          simp only [bind, Except.bind, compiled] at h
          split at h
          · split at h
            · next tree found => exact .inr (.inr ⟨tree, found, failsIn_of_visit h⟩)
            · cases h
          · cases h

end IgnoreFilter

namespace Selection

/-! ## Listings -/

variable {s : Selection} {fs : FileSystem} {filter : Option IgnoreFilter} {root p : Path}
  {names : List Text}

/-- The names lead from the root to a file that has a wanted suffix and is not ignored, and neither
is a directory between the root and the file. -/
def Wants (s : Selection) (fs : FileSystem) (filter : Option IgnoreFilter) (root : Path)
    (names : List Text) : Prop :=
  ∃ tree name content, fs.entry root = .ok tree ∧ names ≠ [] ∧
    tree.Below names (.file name content) ∧
    (root.below names).suffix.lower ∈ s.extensions.map Text.lower ∧
    ∀ f ∈ filter, ¬f.ignores (root.below names) ∧
      ∀ ds rest, names = ds ++ rest → ds ≠ [] → rest ≠ [] → ¬f.ignoresDirectory (root.below ds)

/-- A walk comes to the files below the root for which no directory on the way is pruned, or cannot
be listed or seen. -/
theorem mem_walk_iff : p ∈ walk fs filter root ↔
    ∃ tree names name content, fs.entry root = .ok tree ∧ names ≠ [] ∧
      tree.Below names (.file name content) ∧ p = root.below names ∧
      Entry.Open (fun p => filter.any (·.ignoresDirectory p)) root names ∧
      fs.Reaches root names := by
  rw [walk]
  split
  · next name permissions entries found =>
      rw [Entry.mem_files_iff]
      constructor
      · rintro ⟨names, name, content, below, eq, passes, reaches⟩
        refine ⟨_, names, name, content, found, ?_, below, eq, passes, reaches⟩
        rintro rfl
        cases below
      · rintro ⟨tree, names, name, content, found', -, below, eq, passes, reaches⟩
        cases found.symm.trans found'
        exact ⟨names, name, content, below, eq, passes, reaches⟩
  · next other =>
      refine iff_of_false List.not_mem_nil ?_
      rintro ⟨tree, names, name, content, found, inner, below, -⟩
      cases below with
      | here => exact inner rfl
      | step => exact other _ _ _ found

/-- What is accepted of the walk are the wanted files that it comes to. -/
theorem mem_filter_walk_iff : p ∈ (walk fs filter root).filter (s.accepts filter) ↔
    ∃ names, p = root.below names ∧ s.Wants fs filter root names ∧ fs.Reaches root names := by
  rw [List.mem_filter, mem_walk_iff, accepts, hasExtension, Bool.and_eq_true,
    List.contains_iff_mem, Bool.not_eq_true', Bool.eq_false_iff]
  constructor
  · rintro ⟨⟨tree, names, name, content, found, inner, below, rfl, passes, reaches⟩, suffix, kept⟩
    refine ⟨names, rfl, ⟨tree, name, content, found, inner, below, suffix, ?_⟩, reaches⟩
    rintro f rfl
    exact ⟨kept, passes⟩
  · rintro ⟨names, rfl, ⟨tree, name, content, found, inner, below, suffix, kept⟩, reaches⟩
    refine ⟨⟨tree, names, name, content, found, inner, below, rfl, ?_, reaches⟩, suffix, ?_⟩
    · intro ds rest split first last pruned
      obtain ⟨f, given, ignored⟩ := (Option.any_eq_true _ _).mp pruned
      exact (kept f given).2 ds rest split first last ignored
    · intro refused
      obtain ⟨f, given, ignored⟩ := (Option.any_eq_true _ _).mp refused
      exact (kept f given).1 ignored

/-- A walk goes in the order of paths. -/
theorem pairwise_walk (fs : FileSystem) (filter : Option IgnoreFilter) (root : Path) :
    (walk fs filter root).Pairwise fun p q => p.parts < q.parts := by
  rw [walk]
  split
  · exact Entry.pairwise_files _ root
  · exact .nil

/-- Since the walk is in order, sorting changes nothing. -/
theorem list_eq : s.list fs root = (s.filter? fs (Path.resolve fs.cwd root)).map fun filter =>
    (walk fs filter (Path.resolve fs.cwd root)).filter (s.accepts filter) := by
  rw [list]
  cases s.filter? fs (Path.resolve fs.cwd root) with
  | error fault => rfl
  | ok filter =>
      have ordered := (pairwise_walk fs filter (Path.resolve fs.cwd root)).filter (s.accepts filter)
      have sorted : ((walk fs filter (Path.resolve fs.cwd root)).filter
          (s.accepts filter)).Pairwise fun p q => p.le q :=
        ordered.imp fun less => decide_eq_true (List.lt_asymm less)
      exact congrArg Except.ok (List.mergeSort_of_pairwise sorted)

/-- A filter that cannot be loaded is one of ignore files. -/
theorem filter?_eq_error {fault : Fault} (h : s.filter? fs root = .error fault) :
    s.respectIgnore ∧ IgnoreFilter.load s.matcher fs root true = .error fault := by
  rw [filter?] at h
  split at h
  · next respected =>
      refine ⟨respected, ?_⟩
      cases loaded : IgnoreFilter.load s.matcher fs root true with
      | error other =>
          rw [loaded] at h
          exact congrArg Except.error (Except.error.inj h)
      | ok f =>
          rw [loaded] at h
          cases h
  · cases h

/-- The names of a wanted file are given by its path. -/
theorem Wants.eq_of_below {more : List Text} (h : s.Wants fs filter root names)
    (h' : s.Wants fs filter root more) (same : root.below names = root.below more) :
    names = more := by
  obtain ⟨_, _, _, -, -, below, -⟩ := h
  obtain ⟨_, _, _, -, -, below', -⟩ := h'
  exact (Path.below_inj (Entry.areParts_of_below below) (Entry.areParts_of_below below')).mp same

/-- A listing succeeds exactly if its filter can be loaded. It then has the wanted files that a walk
comes to, each once and in the order of paths, which is that of the walk. So it has all wanted files
exactly if the walk comes to each of them. It fails only if ignore files count and that of the root
cannot be looked for, or the lines of the root or of an ignore file below it cannot be compiled. -/
theorem list_exact_iff_reachable (s : Selection) (fs : FileSystem) (place : Path) :
    let root := Path.resolve fs.cwd place
    ((∃ files, s.list fs place = .ok files) ↔ ∃ filter, s.filter? fs root = .ok filter) ∧
    (∀ filter, s.filter? fs root = .ok filter →
      (walk fs filter root).Pairwise (fun p q => p.parts < q.parts) ∧
      ∃ files, s.list fs place = .ok files ∧
        files = (walk fs filter root).filter (s.accepts filter) ∧
        files.Pairwise (fun p q => p.parts < q.parts) ∧ files.Nodup ∧
        (∀ p, p ∈ files ↔
          ∃ names, p = root.below names ∧ s.Wants fs filter root names ∧ fs.Reaches root names) ∧
        ((∀ p, p ∈ files ↔ ∃ names, p = root.below names ∧ s.Wants fs filter root names) ↔
          ∀ names, s.Wants fs filter root names → fs.Reaches root names)) ∧
    ∀ fault, s.list fs place = .error fault → s.respectIgnore ∧
      (IgnoreFilter.rootLines fs root = .error fault ∨
        (∃ lines, IgnoreFilter.rootLines fs root = .ok lines ∧
          s.matcher.compile lines = .error fault) ∨
        ∃ tree, fs.entry root = .ok tree ∧
          IgnoreFilter.FailsIn s.matcher fs root tree fault) := by
  intro root
  rw [list_eq]
  refine ⟨?_, fun filter loaded => ?_, fun fault failed => ?_⟩
  · constructor
    · rintro ⟨files, listed⟩
      obtain ⟨filter, loaded, -⟩ := Except.map_eq_ok_iff.mp listed
      exact ⟨filter, loaded⟩
    · rintro ⟨filter, loaded⟩
      exact ⟨_, Except.map_eq_ok_iff.mpr ⟨filter, loaded, rfl⟩⟩
  · have walked := pairwise_walk fs filter root
    have ordered := walked.filter (s.accepts filter)
    refine ⟨walked, _, Except.map_eq_ok_iff.mpr ⟨filter, loaded, rfl⟩, rfl, ordered, ?_,
      fun p => mem_filter_walk_iff, ?_⟩
    · refine ordered.imp fun {p q} less eq => ?_
      subst eq
      exact List.lt_irrefl _ less
    · constructor
      · intro exactly names wants
        have mem := (exactly (root.below names)).mpr ⟨names, rfl, wants⟩
        obtain ⟨more, same, wants', reaches⟩ := mem_filter_walk_iff.mp mem
        rwa [wants.eq_of_below wants' same]
      · intro all p
        rw [mem_filter_walk_iff]
        refine exists_congr fun names => and_congr_right fun _ => and_iff_left_of_imp (all names)
  · cases loaded : s.filter? fs root with
    | ok filter =>
        rw [loaded] at failed
        cases failed
    | error other =>
        rw [loaded] at failed
        cases failed
        obtain ⟨respected, fails⟩ := filter?_eq_error loaded
        exact ⟨respected, IgnoreFilter.fails_of_load fails⟩

end Selection

namespace Sample

/-- A file system with a single directory `w`, which is the working directory. -/
def work (entries : List Entry) : FileSystem where
  entries := [.folder "w" entries]
  cwd := "/w"

def source (name : Text) : Entry :=
  .file name { octets := [] }

def ignoring (patterns : Text) : Entry :=
  .file ".gitignore" { octets := Utf8.octets patterns }

/-- A file `a.js` beside a directory `a` that ignores one of its two files, and has a directory that
cannot be listed. -/
def ignoringTree : List Entry :=
  [source "a.js", .folder "a" [ignoring "c.js", source "c.js", source "b.js",
    .directory "d" { read := false } [source "e.js"]]]

/-- The same with an ignore file that ends in a backslash. -/
def brokenTree : List Entry :=
  [source "a.js", .folder "a" [ignoring "c\\"]]

theorem entry_work (entries : List Entry) :
    (work entries).entry (Path.resolve (work entries).cwd "/w") = .ok (.folder "w" entries) :=
  rfl

end Sample

namespace Selection

open Sample

/-- An ignored file and an ignored directory are not listed, and what is next to them is. -/
theorem list_exact_iff_reachable_ignoring :
    ∃ files, Selection.list {} (work ignoringTree) "/w" = .ok files ∧
      Path.ofText "/w/a/b.js" ∈ files ∧ Path.ofText "/w/a/c.js" ∉ files ∧
      Path.ofText "/w/a/d/e.js" ∉ files := by
  let root := Path.resolve (work ignoringTree).cwd "/w"
  have placedB : Path.ofText "/w/a/b.js" = root.below ["a", "b.js"] := by decide
  have placedE : Path.ofText "/w/a/d/e.js" = root.below ["a", "d", "e.js"] := by decide
  have below : (Entry.folder "w" ignoringTree).Below ["a", "b.js"] (source "b.js") := by
    refine Entry.below_cons_iff.mpr ⟨_, Entry.mem_members_iff.mpr ⟨?_, rfl⟩, rfl,
      Entry.below_cons_iff.mpr ⟨_, Entry.mem_members_iff.mpr ⟨?_, rfl⟩, rfl, .here⟩⟩ <;> decide
  have evaluated : (Selection.filter? {} (work ignoringTree) root).toOption.any (·.any fun f =>
      !f.ignores (Path.ofText "/w/a/b.js") && !f.ignoresDirectory (root.child "a") &&
        f.ignores (Path.ofText "/w/a/c.js")) := by
    decide +kernel
  obtain ⟨filter, loaded, judged⟩ := (Option.any_eq_true _ _).mp evaluated
  obtain ⟨f, rfl, judged⟩ := (Option.any_eq_true _ _).mp judged
  obtain ⟨passed, ignored⟩ := Bool.and_eq_true_iff.mp judged
  obtain ⟨kept, entered⟩ := Bool.and_eq_true_iff.mp passed
  obtain ⟨-, files, listed, -, -, -, member, -⟩ :=
    (list_exact_iff_reachable {} (work ignoringTree) "/w").2.1 _
      (Except.toOption_eq_some_iff.mp loaded)
  refine ⟨files, listed, (member _).mpr ⟨_, placedB, ?_, ?_⟩, fun mem => ?_, fun mem => ?_⟩
  · refine ⟨_, "b.js", _, entry_work _, by simp, below, by decide, ?_⟩
    rintro f ⟨⟩
    refine ⟨?_, Entry.open_cons_iff.mpr ⟨fun _ => by simpa using entered, ?_⟩⟩
    · rw [← placedB]
      simpa using kept
    · exact Entry.open_cons_iff.mpr ⟨fun more => absurd rfl more, Entry.open_nil⟩
  · exact FileSystem.reaches_cons_iff.mpr ⟨by decide, by decide, FileSystem.reaches_cons_iff.mpr
      ⟨by decide, by decide, FileSystem.listsTo_nil, fun more => absurd rfl more⟩⟩
  · obtain ⟨names, placed, ⟨_, _, _, -, -, -, -, judged⟩, -⟩ := (member _).mp mem
    exact (judged f rfl).1 (placed ▸ ignored)
  · obtain ⟨names, placed, ⟨_, _, _, -, -, below, -, -⟩, reaches⟩ := (member _).mp mem
    have same : (["a", "d", "e.js"] : List Text) = names :=
      (Path.below_inj (by decide) (Entry.areParts_of_below below)).mp (placedE.symm.trans placed)
    subst same
    obtain ⟨-, -, inside⟩ := FileSystem.reaches_cons_iff.mp reaches
    obtain ⟨-, -, inside⟩ := FileSystem.reaches_cons_iff.mp inside
    exact absurd (FileSystem.reaches_cons_iff.mp inside).1 (by decide)

/-- One pattern that cannot be read is enough to lose the whole listing. -/
theorem not_always_listed :
    ¬∀ (s : Selection) (fs : FileSystem) (root : Path), ∃ files, s.list fs root = .ok files := by
  intro listed
  have failed : ¬(Selection.list {} (work brokenTree) "/w").isOk := by
    decide +kernel
  exact failed (Except.isOk_iff.mpr (listed {} (work brokenTree) "/w"))

end Selection

end EnvReads
