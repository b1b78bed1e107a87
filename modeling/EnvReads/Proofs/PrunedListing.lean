import EnvReads.Proofs.MatcherPatterns
import EnvReads.Proofs.NestedRules

/-!
# Listings without pruning

Where no rule takes anything back and none has bracket expressions, all below an ignored directory
is ignored (`IgnoreFilter.ignores_below_of_plain`). Then it does not matter whether ignored
directories are entered: a listing has the files of the whole tree that are not ignored themselves
(`Selection.list_eq_unpruned`).
-/

namespace EnvReads

open Except (Ensures)
open Matcher.Patterns (OnOneLine)
open EnvReads.Path (AreParts)

namespace IgnoreFilter

variable {m : Matcher} {P : m.Patterns} {fs : FileSystem} {f g : IgnoreFilter}

/-! ## The lines that a filter is made of -/

/-- The lines count in the root of a filter, or they stand in a nested ignore file that it has
read. -/
def IsMadeOf (f : IgnoreFilter) (fs : FileSystem) (lines : List Text) : Prop :=
  rootLines fs f.root = .ok lines ∨
    ∃ p own t, (p, own) ∈ f.nested ∧ fs.readText (p.child fileName) = .ok t ∧ lines = t.lines

/-- A filter of the tree below a root has only rules that are compiled from lines which it is made
of. -/
structure Compiled (m : Matcher) (fs : FileSystem) (root : Path) (f : IgnoreFilter) : Prop where
  root : f.root = root
  rules : ∃ lines, rootLines fs f.root = .ok lines ∧ m.compile lines = .ok f.rules
  nested : ∀ p own, (p, own) ∈ f.nested →
    ∃ t, fs.readText (p.child fileName) = .ok t ∧ m.compile t.lines = .ok own

/-- Reading one more ignore file keeps all rules compiled from lines of ignore files. -/
theorem compiled_readIn {root p : Path} (h : f.Compiled m fs root) :
    Ensures (Compiled m fs root) (readIn m fs p f) := by
  intro g read
  obtain ⟨now, rfl, -, mem⟩ := readIn_eq_ok read
  refine ⟨h.root, h.rules, fun q own member => ?_⟩
  rcases List.mem_append.mp member with before | added
  · exact h.nested q own before
  · obtain ⟨rfl, -, compiled⟩ := (mem q own).mp added
    exact compiled

/-- So does a walk. -/
theorem compiled_visit {e : Entry} {root p : Path} (h : f.Compiled m fs root) :
    Ensures (Compiled m fs root) (visit m fs e p f) := by
  induction e using Entry.induction generalizing p f with
  | file name content => exact .ok h
  | directory name permissions entries ih =>
      rw [visit_directory]
      split
      · refine (compiled_readIn h).bind fun g h => ?_
        exact .foldlM h fun e member g h =>
          ih e (Entry.mem_of_mem_members (mem_members_of_mem_entered member)) h
      · exact .ok h

/-- All rules of a loaded filter are compiled from lines of ignore files. -/
theorem compiled_load {root : Path} {nested : Bool} (loaded : load m fs root nested = .ok f) :
    f.Compiled m fs root := by
  obtain ⟨lines, ofRoot, loaded⟩ := Except.bind_eq_ok_iff.mp loaded
  obtain ⟨rules, compiled, loaded⟩ := Except.bind_eq_ok_iff.mp loaded
  have start : Compiled m fs root ⟨root, rules, []⟩ := ⟨rfl, ⟨lines, ofRoot, compiled⟩, by simp⟩
  split at loaded
  · split at loaded
    · exact compiled_visit start f loaded
    · cases loaded
      exact start
  · cases loaded
    exact start

/-- All below an ignored directory is ignored, where the rules are plain. -/
theorem ignores_below_of_plain (covers : P.CoversBelow) (absolute : f.root.isAbsolute)
    (compiled : f.Compiled m fs f.root) (plain : ∀ lines, f.IsMadeOf fs lines → P.isPlain lines)
    {names more : List Text} (parts : AreParts (names ++ more))
    (oneLine : OnOneLine (names ++ more)) (inner : more ≠ [])
    (ignored : f.ignoresDirectory (f.root.below names)) :
    f.ignores (f.root.below (names ++ more)) := by
  obtain ⟨partsNames, -⟩ := Path.areParts_append_iff.mp parts
  have below : names ≠ [] := by
    rintro rfl
    rw [ignoresDirectory, relative?_below absolute partsNames] at ignored
    cases ignored
  rw [ignoresDirectory_below_iff absolute partsNames below] at ignored
  rw [ignores_below_iff absolute parts]
  rcases ignored with byRoot | ⟨above, rest, own, rfl, has, byOwn⟩
  · obtain ⟨lines, ofRoot, compiledRoot⟩ := compiled.rules
    exact .inl (covers.ignores_append compiledRoot (plain lines (.inl ofRoot)) parts oneLine inner
      byRoot)
  · obtain ⟨t, read, compiledOwn⟩ := compiled.nested _ _ has
    rw [List.append_assoc] at parts oneLine ⊢
    refine .inr ⟨above, rest ++ more, own, rfl, has, covers.ignores_append compiledOwn
      (plain t.lines (.inr ⟨_, own, t, has, read, rfl⟩)) (Path.areParts_append_iff.mp parts).2
      (List.forall_mem_append.mp oneLine).2 inner byOwn⟩

end IgnoreFilter

namespace Entry

/-! ## Pruned trees -/

variable {fs : FileSystem} {prune keep : Path → Bool}

/-- If nothing below a pruned directory is kept, pruning changes nothing. -/
theorem filter_files_eq (e : Entry) (p : Path)
    (safe : ∀ ds more name content, e.Below (ds ++ more) (.file name content) → ds ≠ [] →
      more ≠ [] → prune (p.below ds) → ¬keep (p.below (ds ++ more))) :
    (e.files fs prune p).filter keep = (e.files fs (fun _ => false) p).filter keep := by
  induction e using induction generalizing p with
  | file name content => rw [files, files]
  | directory name permissions entries ih =>
      rw [files_directory, files_directory]
      split
      case isFalse => rfl
      rw [List.filter_flatMap, List.filter_flatMap]
      refine List.flatMap_congr fun e member => ?_
      have member := mem_sortByName.mp member
      have inside := ih e (mem_of_mem_members member) (p.child e.name)
        fun ds more name content below first => by
          rw [Path.below_child, Path.below_child]
          exact safe (e.name :: ds) more name content (.step member below) (by simp)
      split
      case isFalse => rfl
      rw [contribution, contribution, Bool.and_false, if_neg Bool.false_ne_true]
      split
      · next pruned =>
          obtain ⟨isDirectory, pruned⟩ := Bool.and_eq_true_iff.mp pruned
          symm
          rw [List.filter_nil, List.filter_eq_nil_iff]
          intro q mem
          obtain ⟨names, name, content, below, rfl, -⟩ := mem_files_iff.mp mem
          refine safe [e.name] names name content (.step member below) (by simp) ?_ pruned
          rintro rfl
          cases below
          cases isDirectory
      · exact inside

/-- No name in a tree has a line feed. -/
def NamedOnOneLine (tree : Entry) : Prop :=
  ∀ names e, tree.Below names e → OnOneLine names

theorem namedOnOneLine_file {name : Text} {content : File} :
    (Entry.file name content).NamedOnOneLine := by
  rintro _ _ ⟨⟩
  exact List.forall_mem_nil _

theorem namedOnOneLine_directory {name : Text} {permissions : Permissions} {entries : List Entry}
    (each : ∀ e ∈ entries, Piece.lineFeed ∉ e.name ∧ e.NamedOnOneLine) :
    (Entry.directory name permissions entries).NamedOnOneLine := by
  rintro _ _ (_ | ⟨member, below⟩)
  · exact List.forall_mem_nil _
  · obtain ⟨here, inside⟩ := each _ (mem_of_mem_members member)
    exact List.forall_mem_cons.mpr ⟨here, inside _ _ below⟩

end Entry

namespace Selection

variable {s : Selection} {fs : FileSystem} {root : Path} {f : IgnoreFilter}

/-- A walk that prunes nothing comes to all files that can be reached. -/
theorem mem_walk_none_iff {p : Path} : p ∈ walk fs none root ↔
    ∃ tree names name content, fs.entry root = .ok tree ∧ names ≠ [] ∧
      tree.Below names (.file name content) ∧ p = root.below names ∧ fs.Reaches root names := by
  have passes : ∀ names, Entry.Open (fun _ => false) root names := by
    intro names ds rest _ _ _
    exact Bool.false_ne_true
  rw [mem_walk_iff]
  simp [passes]

/-- Where all below an ignored directory is ignored, it may as well be entered. -/
theorem filter_walk_eq (safe : ∀ tree ds more name content, fs.entry root = .ok tree →
      tree.Below (ds ++ more) (.file name content) → more ≠ [] →
      f.ignoresDirectory (root.below ds) → f.ignores (root.below (ds ++ more))) :
    (walk fs (some f) root).filter (s.accepts (some f)) =
      (walk fs none root).filter (s.accepts (some f)) := by
  rw [walk, walk]
  split
  · next found =>
      refine Entry.filter_files_eq _ _ fun ds more name content below _ inner pruned accepted => ?_
      have ignored := safe _ ds more name content found below inner pruned
      rw [accepts, Option.any_some, ignored, Bool.not_true, Bool.and_false] at accepted
      cases accepted
  · rfl

/-- Where no rule is negated or has bracket expressions, and no name has a line feed, all below an
ignored directory is ignored, so a listing has all files of the tree that have a wanted suffix and
are not ignored themselves. -/
theorem list_eq_unpruned (s : Selection) {P : s.matcher.Patterns} (covers : P.CoversBelow)
    {fs : FileSystem} {root : Path} {nested : Bool} {f : IgnoreFilter}
    (absolute : root.isAbsolute) (loaded : IgnoreFilter.load s.matcher fs root nested = .ok f)
    (plain : ∀ lines, f.IsMadeOf fs lines → P.isPlain lines) :
    (∀ ds more, AreParts (ds ++ more) → OnOneLine (ds ++ more) → more ≠ [] →
      f.ignoresDirectory (root.below ds) → f.ignores (root.below (ds ++ more))) ∧
    ∀ place : Path, s.respectIgnore → nested → root = Path.resolve fs.cwd place →
      (∀ tree, fs.entry root = .ok tree → tree.NamedOnOneLine) →
      ∃ files, s.list fs place = .ok files ∧
        files = ((walk fs none root).filter fun p =>
          s.hasExtension p && !f.ignores p).mergeSort Path.le ∧
        ∀ p, p ∈ files ↔ (∃ tree names name content, fs.entry root = .ok tree ∧ names ≠ [] ∧
          tree.Below names (.file name content) ∧ p = root.below names ∧ fs.Reaches root names) ∧
            s.hasExtension p ∧ ¬f.ignores p := by
  have compiled := IgnoreFilter.compiled_load loaded
  have covered : ∀ ds more, AreParts (ds ++ more) → OnOneLine (ds ++ more) → more ≠ [] →
      f.ignoresDirectory (root.below ds) → f.ignores (root.below (ds ++ more)) := by
    intro ds more parts oneLine inner ignored
    obtain rfl := compiled.root
    exact IgnoreFilter.ignores_below_of_plain covers absolute compiled plain parts oneLine inner
      ignored
  refine ⟨covered, ?_⟩
  rintro place respected rfl rfl oneLine
  refine ⟨_, ?_, rfl, fun p => ?_⟩
  · have unpruned := filter_walk_eq (s := s) fun tree ds more name content found below inner =>
      covered ds more (Entry.areParts_of_below below) (oneLine tree found _ _ below) inner
    rw [list, filter?, if_pos respected, loaded]
    exact congrArg (fun files => Except.ok (files.mergeSort Path.le)) unpruned
  · rw [List.mem_mergeSort, List.mem_filter, mem_walk_none_iff, Bool.and_eq_true,
      Bool.not_eq_true', Bool.not_eq_true]

end Selection

namespace Sample

/-- The root ignores directories `out` and files with two suffixes, and `pkg` ignores all names of
two letters, with all below them. -/
def plainTree : List Entry :=
  [ignoring "out/\n*.min.js", source "a.js", .folder "out" [source "b.js"],
    .folder "pkg" [ignoring "??", source "c.js", .folder "ui" [.folder "deep" [source "d.js"]]]]

theorem namedOnOneLine_plainTree : (Entry.folder "w" plainTree).NamedOnOneLine := by
  refine Entry.namedOnOneLine_directory fun e member => ?_
  rcases member with _ | ⟨_, _ | ⟨_, _ | ⟨_, _ | ⟨_, ⟨⟩⟩⟩⟩⟩ <;> refine ⟨by decide, ?_⟩
  · exact Entry.namedOnOneLine_file
  · exact Entry.namedOnOneLine_file
  · refine Entry.namedOnOneLine_directory fun e member => ?_
    rcases member with _ | ⟨_, ⟨⟩⟩
    exact ⟨by decide, Entry.namedOnOneLine_file⟩
  · refine Entry.namedOnOneLine_directory fun e member => ?_
    rcases member with _ | ⟨_, _ | ⟨_, _ | ⟨_, ⟨⟩⟩⟩⟩ <;> refine ⟨by decide, ?_⟩
    · exact Entry.namedOnOneLine_file
    · exact Entry.namedOnOneLine_file
    · refine Entry.namedOnOneLine_directory fun e member => ?_
      rcases member with _ | ⟨_, ⟨⟩⟩
      refine ⟨by decide, Entry.namedOnOneLine_directory fun e member => ?_⟩
      rcases member with _ | ⟨_, ⟨⟩⟩
      exact ⟨by decide, Entry.namedOnOneLine_file⟩

end Sample

namespace Selection

open Sample
open IgnoreFilter (IsMadeOf fileName rootLines)
open Matcher (standardPatterns)

/-- Below a directory that a nested ignore file ignores every file is ignored by itself. -/
theorem list_eq_unpruned_nested : ∃ f files,
    IgnoreFilter.load .standard (work plainTree) "/w" true = .ok f ∧
      (∀ lines, f.IsMadeOf (work plainTree) lines → standardPatterns.isPlain lines) ∧
      f.ignoresDirectory (Path.ofText "/w/pkg/ui") ∧
      f.ignores (Path.ofText "/w/pkg/ui/deep/d.js") ∧
      Selection.list {} (work plainTree) "/w" = .ok files ∧
      Path.ofText "/w/pkg/c.js" ∈ files ∧ Path.ofText "/w/pkg/ui/deep/d.js" ∉ files := by
  have evaluated : (IgnoreFilter.load .standard (work plainTree) "/w" true).toOption.any fun f =>
      f.nested.map Prod.fst = [Path.ofText "/w/pkg"] &&
        f.ignoresDirectory (Path.ofText "/w/pkg/ui") &&
        !f.ignores (Path.ofText "/w/pkg/c.js") := by
    decide +kernel
  obtain ⟨f, loaded, judged⟩ := (Option.any_eq_true _ _).mp evaluated
  have loaded := Except.toOption_eq_some_iff.mp loaded
  simp only [Bool.and_eq_true, decide_eq_true_eq, Bool.not_eq_true'] at judged
  obtain ⟨⟨places, pruned⟩, kept⟩ := judged
  have plain : ∀ lines, f.IsMadeOf (work plainTree) lines → standardPatterns.isPlain lines := by
    have ofRoot : (rootLines (work plainTree) "/w").toOption.all standardPatterns.isPlain := by
      decide +kernel
    have ofPkg : ((work plainTree).readText ((Path.ofText "/w/pkg").child fileName)).toOption.all
        fun t => standardPatterns.isPlain t.lines := by
      decide +kernel
    rintro lines (counts | ⟨p, own, t, member, read, rfl⟩)
    · rw [(IgnoreFilter.compiled_load loaded).root] at counts
      rwa [counts] at ofRoot
    · have place := List.mem_map_of_mem (f := Prod.fst) member
      rw [places] at place
      have read : (work plainTree).readText ((Path.ofText "/w/pkg").child fileName) = .ok t :=
        List.mem_singleton.mp place ▸ read
      rwa [read] at ofPkg
  obtain ⟨below, listing⟩ :=
    list_eq_unpruned {} Matcher.coversBelow_standardPatterns rfl loaded plain
  obtain ⟨files, listed, -, member⟩ := listing "/w" rfl rfl rfl fun tree found => by
    cases found.symm.trans (entry_work plainTree)
    exact namedOnOneLine_plainTree
  have ignored : f.ignores (Path.ofText "/w/pkg/ui/deep/d.js") :=
    below ["pkg", "ui"] ["deep", "d.js"] (by decide) (by decide) (by simp) pruned
  refine ⟨f, files, loaded, plain, pruned, ignored, listed, (member _).mpr ?_, fun mem => ?_⟩
  · have below : (Entry.folder "w" plainTree).Below ["pkg", "c.js"] (source "c.js") := by
      refine Entry.below_cons_iff.mpr ⟨_, Entry.mem_members_iff.mpr ⟨?_, rfl⟩, rfl,
        Entry.below_cons_iff.mpr ⟨_, Entry.mem_members_iff.mpr ⟨?_, rfl⟩, rfl, .here⟩⟩ <;> decide
    have reaches : (work plainTree).Reaches (Path.resolve (work plainTree).cwd "/w")
        ["pkg", "c.js"] :=
      FileSystem.reaches_cons_iff.mpr ⟨by decide, by decide, FileSystem.reaches_cons_iff.mpr
        ⟨by decide, by decide, FileSystem.listsTo_nil, fun more => absurd rfl more⟩⟩
    refine ⟨⟨_, ["pkg", "c.js"], "c.js", { octets := [] }, entry_work _, by simp, below, by decide,
      reaches⟩, by decide, ?_⟩
    simpa using kept
  · exact ((member _).mp mem).2.2 ignored

end Selection

end EnvReads
