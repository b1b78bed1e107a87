import EnvReads.Proofs.IgnoredPlaces
import Mathlib.Data.List.Sort

/-!
# The ignore files that a filter reads

A filter reads the ignore files of a tree on one walk from the root down. The walk passes over
ignored directories, and what is ignored is judged by the files that have been read up to then. In
the end exactly those ignore files are read that count and that the walk comes to
(`IgnoreFilter.load_reads_exactly`), whatever the order is in which entries are listed.

When the walk comes to a directory, all files that can judge what is in it are read already: they
stand above it. What has been read beside it, below directories that came earlier, judges nothing
here. This is `IgnoreFilter.Survey.Ready`, which every step of the walk keeps.
-/

namespace EnvReads

open EnvReads.Path (AreParts)

namespace IgnoreFilter

variable {f g : IgnoreFilter}

/-- Reading the ignore file of a directory adds its rules, if it has any and is not the root. -/
theorem readIn_eq_ok {m : Matcher} {fs : FileSystem} {p : Path} (h : readIn m fs p f = .ok g) :
    ∃ now : List (Path × (Text → Bool)), g = { f with nested := f.nested ++ now } ∧
      now.Pairwise (fun a b => a.1.parts < b.1.parts) ∧
      ∀ q own, (q, own) ∈ now ↔ q = p ∧ p ≠ f.root ∧
        ∃ t, fs.readText (p.child fileName) = .ok t ∧ m.compile t.lines = .ok own := by
  rw [readIn] at h
  split at h
  · next same =>
      cases h
      exact ⟨[], by simp, .nil, by simp [same]⟩
  · next other =>
      split at h
      · next fault unread =>
          cases h
          exact ⟨[], by simp, .nil, by simp [unread]⟩
      · next t read =>
          obtain ⟨own, compiled, rfl⟩ := Except.map_eq_ok_iff.mp h
          exact ⟨[(p, own)], rfl, List.pairwise_singleton _ _,
            by simp [other, read, compiled, eq_comm]⟩

namespace Survey

variable {w : Survey} {tree : Entry} {names : List Text} {own : Text → Bool} {q : Path}

/-- An ignore file counts, and the walk comes to its directory and can list it. -/
structure Reads (w : Survey) (tree : Entry) (names : List Text) (own : Text → Bool) : Prop
    extends w.Loaded tree names own where
  lists : w.files.ListsTo w.root (names ++ [fileName])

theorem Reads.parts (h : w.Reads tree names own) : AreParts names := by
  obtain ⟨d, below, -⟩ := h.place
  exact Entry.areParts_of_below below

/-! ## What is read when the walk comes to a directory -/

/-- When the walk comes to the place that the names lead to, the ignore files of all directories
above it are read, and none of those at or below it. -/
structure Ready (w : Survey) (f : IgnoreFilter) (names : List Text) : Prop where
  root : f.root = w.root
  rules : f.rules = w.rules
  parts : AreParts names
  placed : ∀ q own, (q, own) ∈ f.nested →
    ∃ ds, AreParts ds ∧ ds ≠ [] ∧ ¬names <+: ds ∧ q = w.root.below ds
  above : ∀ ds rest own, names = ds ++ rest → ds ≠ [] → rest ≠ [] →
    ((w.root.below ds, own) ∈ f.nested ↔ w.HasRules ds own)

/-- A walk starts with the rules of the root alone. -/
theorem ready_nil (w : Survey) : w.Ready ⟨w.root, w.rules, []⟩ [] where
  root := rfl
  rules := rfl
  parts := List.forall_mem_nil _
  placed := by simp
  above := by
    intro ds rest own eq inner
    exact absurd (List.append_eq_nil_iff.mp eq.symm).1 inner

/-- What is kept for a directory is kept for one that is neither at nor below the place. -/
theorem Ready.not_prefix {ds : List Text} (ready : w.Ready f names) (parts : AreParts ds)
    (member : (w.root.below ds, own) ∈ f.nested) : ds ≠ [] ∧ ¬names <+: ds := by
  obtain ⟨ds', parts', inner, beside, same⟩ := ready.placed _ _ member
  rw [Path.below_inj parts parts'] at same
  subst same
  exact ⟨inner, beside⟩

/-- A directory that the walk comes to is ignored exactly if it is pruned. -/
theorem Ready.ignoresDirectory_iff (ready : w.Ready f names) (inner : names ≠ [])
    (entered : w.Entered names.dropLast) :
    f.ignoresDirectory (w.root.below names) ↔ w.Pruned names := by
  have judged := ignoresDirectory_below_iff (ready.root ▸ w.absolute) ready.parts inner
  rw [ready.root, ready.rules] at judged
  rw [judged, pruned_iff]
  refine or_congr_right ⟨?_, ?_⟩
  · rintro ⟨ds, rest, own, eq, member, ignored⟩
    obtain ⟨parts, -⟩ := Path.areParts_append_iff.mp (eq ▸ ready.parts)
    obtain ⟨first, beside⟩ := ready.not_prefix parts member
    have more : rest ≠ [] := by
      rintro rfl
      rw [List.append_nil] at eq
      exact beside (eq ▸ List.prefix_rfl)
    refine ⟨ds, rest, own, eq, more, ⟨first, (ready.above ds rest own eq first more).mp member, ?_⟩,
      ignored⟩
    rw [eq, List.dropLast_append_of_ne_nil more] at entered
    exact entered.of_append
  · rintro ⟨ds, rest, own, eq, more, ⟨first, has, -⟩, ignored⟩
    exact ⟨ds, rest, own, eq, (ready.above ds rest own eq first more).mpr has, ignored⟩

/-- What is read in a directory is its own ignore file. -/
theorem Ready.readIn_eq_ok (ready : w.Ready f names)
    (read : readIn w.matcher w.files (w.root.below names) f = .ok g) :
    ∃ now : List (Path × (Text → Bool)), g = { f with nested := f.nested ++ now } ∧
      now.Pairwise (fun a b => a.1.parts < b.1.parts) ∧
      ∀ q own, (q, own) ∈ now ↔ q = w.root.below names ∧ names ≠ [] ∧ w.HasRules names own := by
  obtain ⟨now, rfl, ordered, mem⟩ := IgnoreFilter.readIn_eq_ok read
  refine ⟨now, rfl, ordered, fun q own => ?_⟩
  rw [mem, ready.root, ne_eq, Path.below_eq_self_iff ready.parts]
  rfl

/-- After the ignore file of a directory is read, the walk is ready for what the directory holds. -/
theorem Ready.readIn (ready : w.Ready f names)
    (read : IgnoreFilter.readIn w.matcher w.files (w.root.below names) f = .ok g) {child : Text}
    (part : Path.IsPart child) : w.Ready g (names ++ [child]) := by
  obtain ⟨now, rfl, -, mem⟩ := ready.readIn_eq_ok read
  have parts : AreParts (names ++ [child]) :=
    Path.areParts_append_iff.mpr ⟨ready.parts, List.forall_mem_singleton.mpr part⟩
  refine ⟨ready.root, ready.rules, parts, ?_, ?_⟩
  · intro q own member
    rcases List.mem_append.mp member with before | read
    · obtain ⟨ds, partsDs, inner, beside, same⟩ := ready.placed q own before
      exact ⟨ds, partsDs, inner, fun below => beside ((List.prefix_append _ _).trans below), same⟩
    · obtain ⟨rfl, inner, -⟩ := (mem q own).mp read
      refine ⟨names, ready.parts, inner, fun below => ?_, rfl⟩
      have longer := below.length_le
      rw [List.length_append, List.length_singleton] at longer
      omega
  · intro ds rest own eq inner more
    obtain ⟨rest, final, rfl⟩ := (List.eq_nil_or_concat rest).resolve_left more
    rw [List.concat_eq_append, ← List.append_assoc] at eq
    obtain rfl := List.append_inj_left' eq rfl
    obtain ⟨partsDs, -⟩ := Path.areParts_append_iff.mp ready.parts
    rw [List.mem_append, mem, Path.below_inj partsDs ready.parts]
    rcases eq_or_ne rest [] with rfl | between
    · rw [List.append_nil] at ready ⊢
      constructor
      · rintro (before | ⟨-, -, has⟩)
        · exact absurd List.prefix_rfl (ready.not_prefix partsDs before).2
        · exact has
      · intro has
        exact .inr ⟨rfl, inner, has⟩
    · rw [ready.above ds rest own rfl inner between]
      refine or_iff_left ?_
      rintro ⟨same, -⟩
      exact between (List.self_eq_append_right.mp same)

/-! ## What the walk adds -/

/-- What a walk through the tree from the place that the names lead to adds to a filter: the rules
of the ignore files that are to be read at or below it, in the strict order of their paths. -/
structure Adds (w : Survey) (tree : Entry) (f g : IgnoreFilter) (names : List Text)
    (added : List (Path × (Text → Bool))) : Prop where
  eq : g = { f with nested := f.nested ++ added }
  ordered : added.Pairwise fun a b => a.1.parts < b.1.parts
  mem_iff : ∀ q own, (q, own) ∈ added ↔
    ∃ more, q = w.root.below (names ++ more) ∧ w.Reads tree (names ++ more) own

theorem Adds.nil (nothing : ∀ more own, ¬w.Reads tree (names ++ more) own) :
    w.Adds tree f f names [] where
  eq := by simp
  ordered := .nil
  mem_iff := by
    intro q own
    refine iff_of_false List.not_mem_nil ?_
    rintro ⟨more, -, reads⟩
    exact nothing more own reads

/-- What is read in one directory judges nothing beside it. -/
theorem Ready.beside {a b : Text} {added : List (Path × (Text → Bool))}
    (ready : w.Ready f (names ++ [b])) (adds : w.Adds tree f g (names ++ [a]) added)
    (other : a ≠ b) : w.Ready g (names ++ [b]) := by
  obtain ⟨rfl, -, mem⟩ := adds
  refine ⟨ready.root, ready.rules, ready.parts, ?_, ?_⟩
  · intro q own member
    rcases List.mem_append.mp member with before | now
    · exact ready.placed q own before
    · obtain ⟨more, rfl, reads⟩ := (mem q own).mp now
      refine ⟨_, reads.parts, by simp, fun below => other ?_, rfl⟩
      rw [List.append_assoc, List.prefix_append_right_inj] at below
      exact (List.cons_prefix_cons.mp below).1.symm
  · intro ds rest own eq inner more
    rw [List.mem_append, mem, ready.above ds rest own eq inner more]
    refine or_iff_left ?_
    rintro ⟨more', same, reads⟩
    obtain ⟨parts, -⟩ := Path.areParts_append_iff.mp (eq ▸ ready.parts)
    rw [Path.below_inj parts reads.parts] at same
    have shorter := congrArg List.length eq
    have longer := congrArg List.length same
    have last := List.length_pos_iff.mpr more
    simp only [List.length_append, List.length_singleton] at shorter longer
    omega

/-- Walks through several directories, one after the other, add what each of them does. -/
theorem exists_added_of_foldlM {entries : List Entry}
    (step : ∀ e ∈ entries, ∀ {f g}, w.Ready f (names ++ [e.name]) →
      visit w.matcher w.files e ((w.root.below names).child e.name) f = .ok g →
      ∃ added, w.Adds tree f g (names ++ [e.name]) added)
    (sorted : entries.Pairwise fun a b => a.name < b.name)
    (ready : ∀ e ∈ entries, w.Ready f (names ++ [e.name]))
    (h : entries.foldlM (fun f e =>
      visit w.matcher w.files e ((w.root.below names).child e.name) f) f = .ok g) :
    ∃ added : List (Path × (Text → Bool)), g = { f with nested := f.nested ++ added } ∧
      added.Pairwise (fun a b => a.1.parts < b.1.parts) ∧
      ∀ q own, (q, own) ∈ added ↔ ∃ e ∈ entries, ∃ more,
        q = w.root.below (names ++ [e.name] ++ more) ∧
          w.Reads tree (names ++ [e.name] ++ more) own := by
  induction entries generalizing f with
  | nil =>
      cases h
      exact ⟨[], by simp, .nil, by simp⟩
  | cons e rest ih =>
      rw [List.foldlM_cons] at h
      obtain ⟨middle, first, later⟩ := Except.bind_eq_ok_iff.mp h
      rw [List.pairwise_cons] at sorted
      obtain ⟨now, adds⟩ := step e (.head _) (ready e (.head _)) first
      have different : ∀ e' ∈ rest, e.name ≠ e'.name := by
        intro e' member same
        have less := sorted.1 e' member
        rw [same] at less
        exact List.lt_irrefl _ less
      obtain ⟨added, rfl, ordered, mem⟩ := ih (fun e member => step e (.tail _ member)) sorted.2
        (fun e' member => (ready e' (.tail _ member)).beside adds (different e' member)) later
      obtain ⟨rfl, orderedNow, memNow⟩ := adds
      refine ⟨now ++ added, by rw [List.append_assoc], ?_, fun q own => ?_⟩
      · refine List.pairwise_append.mpr ⟨orderedNow, ordered, fun a memberA b memberB => ?_⟩
        obtain ⟨more, eqA, reads⟩ := (memNow a.1 a.2).mp memberA
        obtain ⟨e', member, more', eqB, reads'⟩ := (mem b.1 b.2).mp memberB
        rw [eqA, eqB, Path.parts_below reads.parts, Path.parts_below reads'.parts,
          List.append_assoc, List.append_assoc]
        exact List.append_left_lt (List.append_left_lt (.rel (sorted.1 e' member)))
      · rw [List.mem_append, memNow, mem]
        simp only [List.mem_cons, exists_eq_or_imp]

/-- An ignore file at or below a directory is that of the directory itself, or it is at or below one
of its entries that is a directory and not pruned. -/
theorem reads_below_iff {name : Text} {permissions : Permissions} {entries : List Entry}
    (below : tree.Below names (.directory name permissions entries)) (entered : w.Entered names)
    (lists : w.files.ListsTo w.root (names ++ [fileName])) :
    (∃ more, q = w.root.below (names ++ more) ∧ w.Reads tree (names ++ more) own) ↔
      (q = w.root.below names ∧ names ≠ [] ∧ w.HasRules names own) ∨
        ∃ e ∈ Entry.members entries, (e.isDirectory ∧ ¬w.Pruned (names ++ [e.name])) ∧
          ∃ more, q = w.root.below (names ++ [e.name] ++ more) ∧
            w.Reads tree (names ++ [e.name] ++ more) own := by
  constructor
  · rintro ⟨more, rfl, reads⟩
    cases more with
    | nil =>
        rw [List.append_nil] at reads ⊢
        exact .inl ⟨rfl, reads.below, reads.has⟩
    | cons first more =>
        obtain ⟨d, place, isDirectory⟩ := reads.place
        obtain ⟨a, before, after⟩ := Entry.below_append_iff.mp place
        cases Entry.below_unique before below
        obtain ⟨e, member, rfl, rest⟩ := Entry.below_cons_iff.mp after
        rw [List.append_cons] at reads ⊢
        have passed := (entered_concat_iff.mp reads.entered.of_append).2
        refine .inr ⟨e, member, ⟨?_, passed⟩, more, rfl, reads⟩
        cases rest with
        | here => exact isDirectory
        | step => rfl
  · rintro (⟨rfl, inner, has⟩ | ⟨e, -, -, more, rfl, reads⟩)
    · refine ⟨[], by rw [List.append_nil], ?_⟩
      rw [List.append_nil]
      exact ⟨⟨⟨inner, has, entered⟩, _, below, rfl⟩, lists⟩
    · rw [List.append_assoc] at reads ⊢
      exact ⟨_, rfl, reads⟩

/-- No ignore file is at or below a file. -/
theorem not_reads_below_file {name : Text} {content : File}
    (below : tree.Below names (.file name content)) (more : List Text) :
    ¬w.Reads tree (names ++ more) own := by
  intro reads
  obtain ⟨d, place, isDirectory⟩ := reads.place
  obtain ⟨a, before, after⟩ := Entry.below_append_iff.mp place
  cases Entry.below_unique before below
  cases after
  cases isDirectory

/-- No ignore file is read at or below a directory that cannot be listed. -/
theorem not_reads_below_unlisted {more : List Text}
    (unlisted : ¬(w.files.list (w.root.below names)).isOk) :
    ¬w.Reads tree (names ++ more) own := by
  intro reads
  refine unlisted (reads.lists names (more ++ [fileName]) ?_ (by simp))
  rw [List.append_assoc]

/-- The walk goes into the directories that are not pruned. -/
theorem Ready.mem_entered_iff {entries : List Entry}
    (ready : ∀ e ∈ Entry.members entries, w.Ready f (names ++ [e.name]))
    (entered : w.Entered names) {e : Entry} :
    e ∈ Entry.sortByName (IgnoreFilter.entered f (w.root.below names) entries) ↔
      e ∈ Entry.members entries ∧ e.isDirectory ∧ ¬w.Pruned (names ++ [e.name]) := by
  rw [Entry.mem_sortByName, IgnoreFilter.entered, List.mem_filter, Bool.and_eq_true,
    Bool.not_eq_true', ← Bool.not_eq_true]
  refine and_congr_right fun member => and_congr_right fun _ => not_congr ?_
  rw [Path.child_eq_below, Path.below_append]
  exact (ready e member).ignoresDirectory_iff (by simp) (by rwa [List.dropLast_concat])

/-- The walk through a tree reads the ignore files of the directories that it goes into. -/
theorem exists_added_of_visit {here : Entry} (below : tree.Below names here)
    (ready : w.Ready f names) (entered : w.Entered names) (lists : w.files.ListsTo w.root names)
    (visited : visit w.matcher w.files here (w.root.below names) f = .ok g) :
    ∃ added, w.Adds tree f g names added := by
  induction here using Entry.induction generalizing names f g with
  | file name content =>
      cases visited
      exact ⟨[], .nil fun more own => not_reads_below_file below more⟩
  | directory name permissions entries ih =>
      rw [visit_directory] at visited
      split at visited
      case isFalse unlisted =>
        cases visited
        exact ⟨[], .nil fun more own => not_reads_below_unlisted unlisted⟩
      case isTrue listed =>
        obtain ⟨middle, read, walk⟩ := Except.bind_eq_ok_iff.mp visited
        have inside : ∀ e ∈ Entry.members entries, w.Ready middle (names ++ [e.name]) :=
          fun e member => ready.readIn read (Entry.mem_members_iff.mp member).1.1
        have lists' : ∀ name, w.files.ListsTo w.root (names ++ [name]) := fun name =>
          FileSystem.listsTo_concat_iff.mpr ⟨lists, listed⟩
        have step : ∀ e ∈ Entry.sortByName
            (IgnoreFilter.entered middle (w.root.below names) entries),
            ∀ {f g}, w.Ready f (names ++ [e.name]) →
              visit w.matcher w.files e ((w.root.below names).child e.name) f = .ok g →
              ∃ added, w.Adds tree f g (names ++ [e.name]) added := by
          intro e chosen f g ready visited
          obtain ⟨member, -, passed⟩ := (Ready.mem_entered_iff inside entered).mp chosen
          rw [Path.child_eq_below, Path.below_append] at visited
          exact ih e (Entry.mem_of_mem_members member)
            (Entry.below_append_iff.mpr ⟨_, below, .step member .here⟩) ready
            (entered_concat_iff.mpr ⟨entered, passed⟩) (lists' e.name) visited
        obtain ⟨added, rfl, ordered, mem⟩ := exists_added_of_foldlM step
          (pairwise_entered middle _ entries)
          (fun e chosen => inside e ((Ready.mem_entered_iff inside entered).mp chosen).1) walk
        simp only [Ready.mem_entered_iff inside entered, and_assoc] at mem
        obtain ⟨now, rfl, orderedNow, memNow⟩ := ready.readIn_eq_ok read
        refine ⟨now ++ added, by rw [List.append_assoc], ?_, fun q own => ?_⟩
        · refine List.pairwise_append.mpr ⟨orderedNow, ordered, fun a memberA b memberB => ?_⟩
          obtain ⟨atA, -⟩ := (memNow a.1 a.2).mp memberA
          obtain ⟨e, -, -, -, more, atB, reads⟩ := (mem b.1 b.2).mp memberB
          rw [atA, atB, Path.parts_below ready.parts, Path.parts_below reads.parts,
            ← List.append_nil names]
          simp only [List.append_assoc]
          exact List.append_left_lt (List.append_left_lt .nil)
        · rw [List.mem_append, memNow, mem, reads_below_iff below entered (lists' fileName)]
          simp only [and_assoc]

/-- The walk from the root reads exactly the ignore files that are to be read. -/
theorem exists_added_of_visit_root
    (visited : visit w.matcher w.files tree w.root ⟨w.root, w.rules, []⟩ = .ok f) :
    ∃ added, f = ⟨w.root, w.rules, added⟩ ∧
      added.Pairwise (fun a b => a.1.parts < b.1.parts) ∧
      ∀ q own, (q, own) ∈ added ↔ ∃ names, q = w.root.below names ∧ w.Reads tree names own := by
  obtain ⟨added, rfl, ordered, mem⟩ :=
    exists_added_of_visit .here w.ready_nil entered_nil FileSystem.listsTo_nil visited
  exact ⟨added, rfl, ordered, mem⟩

/-- A filter is loaded by a walk from the root, with the rules of the root. -/
theorem load_eq (w : Survey) (found : w.files.entry w.root = .ok tree) :
    load w.matcher w.files w.root true =
      visit w.matcher w.files tree w.root ⟨w.root, w.rules, []⟩ := by
  obtain ⟨lines, read, compiled⟩ := Except.bind_eq_ok_iff.mp w.compiled
  rw [load, read]
  simp only [bind, Except.bind, compiled, if_true, found]

/-! ## Trees in another order -/

end Survey

/-! ## Loaded filters -/

end IgnoreFilter

namespace Sample

end Sample

namespace IgnoreFilter

open Sample

end IgnoreFilter

end EnvReads
