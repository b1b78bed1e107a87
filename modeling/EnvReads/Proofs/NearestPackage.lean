import EnvReads.Proofs.FollowedPaths
import EnvReads.Proofs.LookupQuestions

/-!
# The nearest package

What a module specifier names is an existing file. A specifier that is a path names the first file
among the paths that the usual suffixes give (`Module.First`). For any other the nearest directory
above the importer that holds the package (`Module.IsNearest`) decides, also if nothing comes of it:
a lookup asks only about paths that lead down from that directory, or from one before it
(`Module.lookup_congr_of_nearest`).

What is done elsewhere makes no difference, unless it can be seen along these paths. It can be where
a symbolic link leads out of the directory, and where the path of the importer leads back, so that
the directories before the nearest one are not in it.
-/

namespace EnvReads

/-! ## Views of a directory -/

namespace FileView

variable {view view' : FileView} {dir : Path} {names : List Text}

/-- Both views answer alike to what is asked about paths that lead down from a directory. -/
structure AgreeIn (view view' : FileView) (dir : Path) : Prop where
  kind : ∀ names, Path.AreParts names → Path.IsForward names →
    view.kind? (dir.below names) = view'.kind? (dir.below names)
  text : ∀ names, Path.AreParts names → Path.IsForward names →
    view.readText (dir.below names) = view'.readText (dir.below names)

/-- Views that agree in a directory agree in all that is in it. -/
theorem AgreeIn.below (h : view.AgreeIn view' dir) (parts : Path.AreParts names)
    (forward : Path.IsForward names) : view.AgreeIn view' (dir.below names) where
  kind more parts' forward' := by
    rw [Path.below_append]
    exact h.kind _ (Path.areParts_append_iff.mpr ⟨parts, parts'⟩) (forward.append forward')
  text more parts' forward' := by
    rw [Path.below_append]
    exact h.text _ (Path.areParts_append_iff.mpr ⟨parts, parts'⟩) (forward.append forward')

/-- What is seen if there is a symbolic link: paths through it lead on from its target. -/
def linking (view : FileView) (link target : Path) : FileView :=
  let along (p : Path) : Path := (p.relativeTo? link).elim p target.join
  { view with
    kind? := fun p => view.kind? (along p)
    readText := fun p => view.readText (along p) }

end FileView

/-- Where a directory is the same, so is what is seen of it. -/
theorem FileSystem.agreeIn_of_entry {fs fs' : FileSystem} {dir : Path}
    (same : fs.entry dir = fs'.entry dir) : fs.view.AgreeIn fs'.view dir where
  kind names parts forward := by
    dsimp only [view]
    rw [lookAt, lookAt, entry_below_congr same parts forward]
  text names parts forward := by
    dsimp only [view]
    rw [readText, readText, file, file, entry_below_congr same parts forward]

namespace Module

variable {view view' : FileView} {ps : List Path} {p dir package importer : Path}
  {specifier : Text}

/-! ## The first file -/

/-- The first file among paths; nothing if no file is among them. -/
inductive First (view : FileView) (paths : List Path) : Option Path → Prop
  | file (before after : List Path) {p : Path} : paths = before ++ p :: after →
      (∀ q ∈ before, view.isFile q = .ok false) → view.isFile p = .ok true →
      First view paths (some p)
  | none : (∀ q ∈ paths, view.isFile q = .ok false) → First view paths none

/-- Trying paths in order gives the first file among them. -/
theorem firstFile_eq_ok_iff {found : Option Path} :
    firstFile view ps = .ok found ↔ First view ps found := by
  constructor
  · intro h
    cases found with
    | none => exact .none (firstFile_eq_none_iff.mp h)
    | some p =>
        induction ps with
        | nil => cases h
        | cons q rest ih =>
            obtain ⟨there, asked, h⟩ := Except.bind_eq_ok_iff.mp h
            cases there with
            | true =>
                cases h
                exact .file [] rest rfl (List.forall_mem_nil _) asked
            | false =>
                cases ih h with
                | file before after eq absent yes =>
                    refine .file (q :: before) after (congrArg (q :: ·) eq) ?_ yes
                    exact List.forall_mem_cons.mpr ⟨asked, absent⟩
  · intro first
    cases first with
    | none absent => exact firstFile_eq_none_iff.mpr absent
    | file before after eq absent yes =>
        rw [eq]
        clear eq
        induction before with
        | nil => exact Except.bind_eq_ok_iff.mpr ⟨true, yes, rfl⟩
        | cons q before ih =>
            obtain ⟨no, absent⟩ := List.forall_mem_cons.mp absent
            exact Except.bind_eq_ok_iff.mpr ⟨false, no, ih absent⟩

theorem mem_of_tried (h : Tried view ps p) : p ∈ ps := by
  induction h with
  | here => exact List.mem_cons_self
  | later _ _ ih => exact .tail _ ih

/-! ## Paths with a suffix -/

/-- What the usual suffixes make of a last component does not lead back. -/
theorem isForward_partsOf_append {last suffix : Text} (part : Path.IsPart last) (down : last ≠ "..")
    (h : suffix ∈ suffixes) : Path.IsForward (Path.partsOf (last ++ suffix)) := by
  have ends : ∀ suffix ∈ suffixes, (Text.splitOn CodePoint.slash suffix).headD [] = [] ∨
      2 ≤ ((Text.splitOn CodePoint.slash suffix).headD []).length := by decide
  have later : ∀ suffix ∈ suffixes,
      Path.IsForward (Text.splitOn CodePoint.slash suffix).tail := by decide
  intro name mem
  obtain ⟨mem, -⟩ := List.mem_filter.mp mem
  rw [Text.splitOn_append part.whole] at mem
  rcases List.mem_cons.mp mem with rfl | mem
  · rcases ends suffix h with bare | long
    · rwa [bare, List.append_nil]
    · intro back
      have counted := congrArg List.length back
      have named := List.length_pos_iff.mpr part.nonempty
      rw [List.length_append, show (Text.ofString "..").length = 2 from rfl] at counted
      omega
  · exact later suffix h name mem

/-- The paths that a module in a directory may have lead down from the directory. -/
theorem exists_below_of_mem_candidates {names : List Text} (parts : Path.AreParts names)
    (inner : names ≠ []) (forward : Path.IsForward names) (h : p ∈ candidates (dir.below names)) :
    ∃ more, Path.AreParts more ∧ Path.IsForward more ∧ p = dir.below more := by
  obtain ⟨suffix, usual, rfl⟩ := List.mem_map.mp h
  obtain ⟨front, last, rfl⟩ := (List.eq_nil_or_concat names).resolve_left inner
  rw [List.concat_eq_append] at *
  have named : (dir.below (front ++ [last])).parts = (dir.parts ++ front) ++ [last] := by
    rw [Path.parts_below parts, List.append_assoc]
  obtain ⟨anchor, named⟩ := Path.ofText_toText_append named suffix
  obtain ⟨before, part⟩ := Path.areParts_append_iff.mp parts
  obtain ⟨first, down⟩ := List.forall_mem_append.mp forward
  have parts' : Path.AreParts (front ++ Path.partsOf (last ++ suffix)) :=
    Path.areParts_append_iff.mpr ⟨before, fun _ => Path.isPart_of_mem_partsOf⟩
  refine ⟨front ++ Path.partsOf (last ++ suffix), parts', ?_, ?_⟩
  · have later := isForward_partsOf_append (part last List.mem_cons_self)
      (down last List.mem_cons_self) usual
    exact Path.IsForward.append first later
  · refine Path.eq_below parts' (anchor.trans (Path.anchor_below parts)) ?_
    rw [named, List.append_assoc]

/-! ## The places of a package -/

/-- The entry that the manifest of a package names, if any, is in the package. -/
def HasInnerMain (view : FileView) (package : Path) : Prop :=
  ∀ main, Names view package main →
    ∃ names, Path.AreParts names ∧ main = package.normalize.below names

/-- The components of the place of a package. -/
def placeOf (specifier : Text) : List Text :=
  "node_modules" :: Path.partsOf specifier

theorem areParts_placeOf (specifier : Text) : Path.AreParts (placeOf specifier) :=
  Path.areParts_cons_iff.mpr ⟨by decide, fun _ => Path.isPart_of_mem_partsOf⟩

/-- A package that is no path is looked for below `node_modules`. -/
theorem packageIn_eq (bare : ¬isPath specifier) (dir : Path) :
    packageIn specifier dir = dir.below (placeOf specifier) := by
  have relative : (Path.ofText specifier).anchor = .relative := by
    refine Path.anchor_ofText_append .relative fun slash => bare ?_
    obtain ⟨rest, rfl⟩ := List.head?_eq_some_iff.mp slash
    have path : Text.startsWith "/" (CodePoint.slash :: rest) := by
      rw [Text.startsWith, List.isPrefixOf_iff_prefix]
      exact List.prefix_append [CodePoint.slash] rest
    rw [isPath, path, Bool.or_true]
  have part : Path.IsPart "node_modules" := by decide
  rw [packageIn, Path.join, if_neg (by rw [Path.isAbsolute, relative]; decide)]
  refine Path.eq_below (areParts_placeOf specifier) ?_ ?_
  · rw [Path.child_eq part]
  · dsimp only
    rw [Path.parts_child part, List.append_assoc]
    rfl

section

variable {place : List Text} (parts : Path.AreParts place) (forward : Path.IsForward place)

include parts forward

/-- The manifest of a package is in the directory that the package is in. -/
theorem exists_below_of_manifest (dir : Path) : ∃ names, Path.AreParts names ∧
    Path.IsForward names ∧ manifest (dir.below place) = dir.below names := by
  have name : Path.AreParts [Text.ofString "package.json"] := by decide
  have down : Path.IsForward [Text.ofString "package.json"] := by decide
  refine ⟨_, Path.areParts_append_iff.mpr ⟨parts, name⟩, forward.append down, ?_⟩
  rw [manifest, Path.child_eq_below, Path.below_append]

variable (inner : place ≠ [])

include inner

/-- What is asked for to find the entry of a package is in the directory that the package is in, if
the manifest does not lead out of it. The path of that entry is normal. -/
theorem exists_below_of_entryAsks (main : HasInnerMain view (dir.below place))
    (asks : EntryAsks view (dir.below place) p) : ∃ names, Path.AreParts names ∧
      Path.IsForward names ∧ (p = dir.below names ∨ p = dir.normalize.below names) := by
  cases asks with
  | manifest =>
      obtain ⟨names, parts, down, eq⟩ := exists_below_of_manifest parts forward dir
      exact ⟨names, parts, down, .inl eq⟩
  | @main named _ names tried =>
      obtain ⟨names', parts', eq⟩ := main named names
      obtain ⟨t, -, rfl⟩ := names
      rw [Path.normalize_below parts forward] at eq
      have later : Path.IsForward names' := by
        obtain ⟨part, mem⟩ := List.exists_mem_of_ne_nil place inner
        have mem' : part ∈ (dir.normalize.below place).parts := by
          rw [Path.parts_below parts]
          exact List.mem_append_right _ mem
        exact Path.forward_of_normalize_eq eq parts' mem' (forward part mem)
      rw [Path.below_append] at eq
      rw [eq] at tried
      obtain ⟨more, parts, down, eq⟩ := exists_below_of_mem_candidates
        (Path.areParts_append_iff.mpr ⟨parts, parts'⟩)
        (fun empty => inner (List.append_eq_nil_iff.mp empty).1) (forward.append later)
        (mem_of_tried tried)
      exact ⟨more, parts, down, .inr eq⟩
  | index _ tried =>
      obtain ⟨more, parts, down, eq⟩ :=
        exists_below_of_mem_candidates parts inner forward (mem_of_tried tried)
      exact ⟨more, parts, down, .inl eq⟩

/-- So is all that is asked for at the place of a package; normal paths are asked for only where
there is a package directory. -/
theorem exists_below_of_placeAsks
    (main : view.isDirectory (dir.below place) = .ok true → HasInnerMain view (dir.below place))
    (asks : PlaceAsks view (dir.below place) p) : ∃ names, Path.AreParts names ∧
      Path.IsForward names ∧ (p = dir.below names ∨
        view.isDirectory (dir.below place) = .ok true ∧ p = dir.normalize.below names) := by
  cases asks with
  | place => exact ⟨place, parts, forward, .inl rfl⟩
  | file _ tried =>
      obtain ⟨more, parts, down, eq⟩ :=
        exists_below_of_mem_candidates parts inner forward (mem_of_tried tried)
      exact ⟨more, parts, down, .inl eq⟩
  | entry yes asks =>
      obtain ⟨names, parts, down, eq⟩ :=
        exists_below_of_entryAsks parts forward inner (main yes) asks
      exact ⟨names, parts, down, eq.imp_right fun eq => ⟨yes, eq⟩⟩

end

/-! ## The nearest package -/

/-- At the place of a package in a directory there is a directory, or a file with a usual suffix. -/
def Holds (view : FileView) (specifier : Text) (dir : Path) : Prop :=
  view.isDirectory (packageIn specifier dir) = .ok true ∨
    ∃ p ∈ candidates (packageIn specifier dir), view.isFile p = .ok true

instance (view : FileView) (specifier : Text) (dir : Path) : Decidable (Holds view specifier dir) :=
  inferInstanceAs (Decidable (_ ∨ _))

/-- The nearest of the directories above a file that holds a package, after others that do not. -/
structure IsNearest (view : FileView) (specifier : Text) (importer : Path) (nearer : List Path)
    (dir : Path) (farther : List Path) : Prop where
  above : importer.ancestors = nearer ++ dir :: farther
  without : ∀ near ∈ nearer, ¬Holds view specifier near
  holds : Holds view specifier dir

/-- The places that a lookup comes to are those up to the nearest package. -/
theorem exists_mem_of_reached {nearer farther : List Path} (holds : Holds view specifier dir)
    (reached : Reached view specifier (nearer ++ dir :: farther) package) :
    ∃ near, (near ∈ nearer ∨ near = dir) ∧ package = packageIn specifier near := by
  induction nearer with
  | nil =>
      cases reached with
      | here => exact ⟨dir, .inr rfl, rfl⟩
      | later no absent _ =>
          rcases holds with yes | ⟨p, mem, yes⟩
          · cases no.symm.trans yes
          · cases (absent p mem).symm.trans yes
  | cons first nearer ih =>
      cases reached with
      | here => exact ⟨first, .inl List.mem_cons_self, rfl⟩
      | later _ _ reached =>
          obtain ⟨near, mem, rfl⟩ := ih reached
          exact ⟨near, mem.imp_left (.tail _), rfl⟩

section

variable {nearer farther : List Path}
  (nearest : IsNearest view specifier importer nearer dir farther)

include nearest

/-- If the path of the file does not lead back, then neither does that of the directory, and the
directories before it are in it. -/
theorem IsNearest.agreeIn_of_forward (forward : Path.IsForward importer.parts)
    (agree : view.AgreeIn view' dir) :
    view.AgreeIn view' dir.normalize ∧ ∀ near ∈ nearer, view.AgreeIn view' near := by
  have ordered := nearest.above ▸ importer.pairwise_ancestors
  refine ⟨?_, fun near mem => ?_⟩
  · obtain ⟨names, parts, eq⟩ : ∃ names, Path.AreParts names ∧ importer = dir.below names := by
      refine Path.exists_below_of_mem_ancestors ?_
      rw [nearest.above]
      exact List.mem_append_right _ List.mem_cons_self
    rw [eq, Path.parts_below parts] at forward
    rwa [Path.normalize_of_forward (List.forall_mem_append.mp forward).1]
  · obtain ⟨names, parts, rfl⟩ :=
      (List.pairwise_append.mp ordered).2.2 near mem dir List.mem_cons_self
    obtain ⟨more, parts', eq⟩ :
        ∃ more, Path.AreParts more ∧ importer = (dir.below names).below more := by
      refine Path.exists_below_of_mem_ancestors ?_
      rw [nearest.above]
      exact List.mem_append_left _ mem
    rw [eq, Path.parts_below parts', Path.parts_below parts] at forward
    obtain ⟨before, -⟩ := List.forall_mem_append.mp forward
    exact agree.below parts (List.forall_mem_append.mp before).2

/-- The nearest directory that holds a package decides, with those before it. -/
theorem lookup_congr_of_nearest (bare : ¬isPath specifier)
    (forward : Path.IsForward (Path.partsOf specifier))
    (inner : HasInnerMain view (packageIn specifier dir)) (nesting : view.nesting = view'.nesting)
    (agree : view.AgreeIn view' dir) (normal : view.AgreeIn view' dir.normalize)
    (near : ∀ near ∈ nearer, view.AgreeIn view' near) :
    lookup view specifier importer = lookup view' specifier importer := by
  have down : Path.IsForward (placeOf specifier) :=
    List.forall_mem_cons.mpr ⟨by decide, forward⟩
  have places {package : Path} (seeks : Seeks view specifier importer package) :=
    exists_mem_of_reached nearest.holds (nearest.above ▸ seeks.2.2)
  refine lookup_congr_of_asks (fun p asks => ?_) fun package opens => ?_
  · cases asks with
    | path relative _ => exact absurd relative bare
    | package seeks asks =>
        obtain ⟨place, mem, rfl⟩ := places seeks
        -- Where there is a package directory, it is that of the nearest.
        have last (yes : view.isDirectory (packageIn specifier place) = .ok true) : place = dir :=
          mem.resolve_left fun mem => nearest.without place mem (.inl yes)
        have below : view.AgreeIn view' place := by
          rcases mem with mem | rfl
          · exact near place mem
          · exact agree
        have main (yes : view.isDirectory (packageIn specifier place) = .ok true) :
            HasInnerMain view (packageIn specifier place) := by
          rw [last yes]
          exact inner
        rw [packageIn_eq bare] at asks main last
        obtain ⟨names, parts, down, rfl | ⟨yes, rfl⟩⟩ := exists_below_of_placeAsks
          (areParts_placeOf specifier) down (List.cons_ne_nil _ _) main asks
        · exact below.kind names parts down
        · rw [last yes]
          exact normal.kind names parts down
  · obtain ⟨seeks, yes⟩ := opens
    obtain ⟨place, mem, rfl⟩ := places seeks
    obtain rfl : place = dir :=
      mem.resolve_left fun mem => nearest.without place mem (.inl yes)
    obtain ⟨names, parts, down, there⟩ :=
      exists_below_of_manifest (areParts_placeOf specifier) down place
    rw [← packageIn_eq bare] at there
    refine mainOf_congr ?_ ?_ nesting
    · rw [there]
      exact agree.kind names parts down
    · rw [there]
      exact agree.text names parts down

end

/-- A directory that holds a package is there. -/
theorem exists_entry_of_holds {fs : FileSystem} (bare : ¬isPath specifier)
    (forward : Path.IsForward (Path.partsOf specifier)) (holds : Holds fs.view specifier dir) :
    ∃ d, fs.entry dir = .ok d := by
  have parts := areParts_placeOf specifier
  have down : Path.IsForward (placeOf specifier) :=
    List.forall_mem_cons.mpr ⟨by decide, forward⟩
  have dirOf {names : List Text} {e : Entry} (parts : Path.AreParts names)
      (down : Path.IsForward names) (found : fs.entry (dir.below names) = .ok e) :
      ∃ d, fs.entry dir = .ok d := by
    obtain ⟨-, d, found, -⟩ := (FileSystem.entry_below_eq_ok_iff parts down).mp found
    exact ⟨d, found⟩
  rw [Holds, packageIn_eq bare] at holds
  rcases holds with yes | ⟨p, mem, yes⟩
  · obtain ⟨e, found, -⟩ := FileSystem.isDirectory_eq_true_iff.mp yes
    exact dirOf parts down found
  · obtain ⟨more, parts, down, rfl⟩ :=
      exists_below_of_mem_candidates parts (List.cons_ne_nil _ _) down mem
    obtain ⟨name, content, found⟩ := FileSystem.isFile_eq_true_iff.mp yes
    exact dirOf parts down found

/-- A lookup gives existing files only. For a path it gives the first with a usual suffix. For a
package it is settled in the nearest directory that holds the package, also if nothing is found
there: all may be different at other paths than those that lead down from that directory, and if the
path of the importer leads back also from its normal form and the directories before it. In a file
system without symbolic links this is so if these directories are the same. -/
theorem lookup_settled_by_nearest (view : FileView) (specifier : Text) (importer : Path) :
    (∀ p, lookup view specifier importer = .ok (some p) → view.isFile p = .ok true) ∧
    (isPath specifier → ∀ found, lookup view specifier importer = .ok found ↔
      First view (suffixes.map fun suffix => Path.ofText
        ((importer.parent.join (Path.ofText specifier)).normalize.toText ++ suffix)) found) ∧
    (¬isPath specifier → Path.IsForward (Path.ofText specifier).parts →
      ∀ nearer dir farther, IsNearest view specifier importer nearer dir farther →
        HasInnerMain view (packageIn specifier dir) →
        (∀ view', view.nesting = view'.nesting → view.AgreeIn view' dir →
          (¬Path.IsForward importer.parts → view.AgreeIn view' dir.normalize ∧
            ∀ near ∈ nearer, view.AgreeIn view' near) →
          lookup view specifier importer = lookup view' specifier importer) ∧
        ∀ fs fs' : FileSystem, view = fs.view → fs.nesting = fs'.nesting →
          fs.entry dir = fs'.entry dir →
          (¬Path.IsForward importer.parts → ∀ near ∈ nearer, fs.entry near = fs'.entry near) →
          lookup view specifier importer = lookup fs'.view specifier importer) := by
  refine ⟨fun p => isFile_of_lookup, fun path found => ?_, ?_⟩
  · have full : specifier.isEmpty = false := by
      cases specifier with
      | nil => cases path
      | cons => rfl
    rw [lookup, full, if_neg Bool.false_ne_true, if_pos path]
    exact firstFile_eq_ok_iff
  · intro bare forward nearer dir farther nearest inner
    have settled (view' : FileView) (nesting : view.nesting = view'.nesting)
        (agree : view.AgreeIn view' dir)
        (back : ¬Path.IsForward importer.parts → view.AgreeIn view' dir.normalize ∧
          ∀ near ∈ nearer, view.AgreeIn view' near) :
        lookup view specifier importer = lookup view' specifier importer := by
      obtain ⟨normal, near⟩ :
          view.AgreeIn view' dir.normalize ∧ ∀ near ∈ nearer, view.AgreeIn view' near := by
        by_cases down : Path.IsForward importer.parts
        · exact nearest.agreeIn_of_forward down agree
        · exact back down
      exact lookup_congr_of_nearest nearest bare forward inner nesting agree normal near
    refine ⟨settled, ?_⟩
    rintro fs fs' rfl nesting same near
    refine settled fs'.view nesting (FileSystem.agreeIn_of_entry same) fun back => ⟨?_, ?_⟩
    · obtain ⟨d, found⟩ := exists_entry_of_holds bare forward nearest.holds
      refine FileSystem.agreeIn_of_entry ?_
      rw [FileSystem.entry_normalize found, FileSystem.entry_normalize (same.symm.trans found)]
    · exact fun place mem => FileSystem.agreeIn_of_entry (near back place mem)

/-- In `/w/app` a package with the given files, and what there is in `/w/node_modules`. -/
def shadowing (package farther : List Entry) : FileSystem where
  entries := [.folder "w" [
    .folder "app" [.folder "node_modules" [.folder "pkg" package], .folder "src" []],
    .folder "lib" [],
    .folder "node_modules" farther]]
  cwd := "/"

/-- A manifest that names an entry which is missing. -/
def unfounded : Entry :=
  .file "package.json" { octets := Utf8.octets "\x7b\"main\":\"./lib\"\x7d" }

def index : Entry :=
  .file "index.js" { octets := [] }

/-- The package in `/w/app` names an entry that is missing, so nothing is found, whether or not
there is one in `/w`. -/
theorem lookup_settled_by_nearest_missing_entry :
    IsNearest (shadowing [unfounded] []).view "pkg" "/w/app/src/a.js" ["/w/app/src"] "/w/app"
      ["/w", "/"] ∧
    HasInnerMain (shadowing [unfounded] []).view (packageIn "pkg" "/w/app") ∧
    lookup (shadowing [unfounded] []).view "pkg" "/w/app/src/a.js" =
      lookup (shadowing [unfounded] [.folder "pkg" [index]]).view "pkg" "/w/app/src/a.js" ∧
    lookup (shadowing [unfounded] []).view "pkg" "/w/app/src/a.js" = .ok none ∧
    lookup (shadowing [unfounded] [.folder "pkg" [index]]).view "pkg" "/w/b.js" =
      .ok (some "/w/node_modules/pkg/index.js") := by
  have without : ¬Holds (shadowing [unfounded] []).view "pkg" "/w/app/src" := by decide +kernel
  have nearest : IsNearest (shadowing [unfounded] []).view "pkg" "/w/app/src/a.js" ["/w/app/src"]
      "/w/app" ["/w", "/"] :=
    ⟨by decide, List.forall_mem_singleton.mpr without, .inl (by decide +kernel)⟩
  have inner : HasInnerMain (shadowing [unfounded] []).view (packageIn "pkg" "/w/app") := by
    rintro main ⟨t, read, rfl⟩
    have named : mainOf (shadowing [unfounded] []).view (packageIn "pkg" "/w/app") =
        .ok (some "./lib") := by decide +kernel
    cases named.symm.trans read
    exact ⟨["lib"], by decide, by decide⟩
  have settled := ((lookup_settled_by_nearest _ "pkg" _).2.2 (by decide) (by decide) _ _ _ nearest
    inner).2 _ (shadowing [unfounded] [.folder "pkg" [index]]) rfl rfl rfl
    fun back => absurd (by decide) back
  exact ⟨nearest, inner, settled, by decide +kernel, by decide +kernel⟩

/-- A change in the `node_modules` of a directory farther away makes a difference if the path of the
importer leads back, and if there is a symbolic link to it. -/
theorem not_always_settled_by_nearest :
    (¬∀ (fs : FileSystem) (specifier : Text) (importer : Path) (nearer : List Path) (dir : Path)
        (farther : List Path) (far : Path) (names : List Text) (new : Entry),
      ¬isPath specifier → Path.IsForward (Path.ofText specifier).parts →
      IsNearest fs.view specifier importer nearer dir farther →
      HasInnerMain fs.view (packageIn specifier dir) → far ∈ farther →
      fs.entry dir = (fs.insert ((far.child "node_modules").below names) new).entry dir →
      lookup fs.view specifier importer =
        lookup (fs.insert ((far.child "node_modules").below names) new).view specifier importer) ∧
    ¬∀ (fs : FileSystem) (link target : Path) (specifier : Text) (importer : Path)
        (nearer : List Path) (dir : Path) (farther : List Path) (far : Path) (names : List Text)
        (new : Entry),
      ¬isPath specifier → Path.IsForward (Path.ofText specifier).parts →
      Path.IsForward importer.parts →
      IsNearest (fs.view.linking link target) specifier importer nearer dir farther →
      HasInnerMain (fs.view.linking link target) (packageIn specifier dir) → far ∈ farther →
      fs.entry dir = (fs.insert ((far.child "node_modules").below names) new).entry dir →
      lookup (fs.view.linking link target) specifier importer =
        lookup ((fs.insert ((far.child "node_modules").below names) new).view.linking link target)
          specifier importer := by
  constructor
  · intro always
    have without : ∀ near ∈ ([.ofText "/w/app/../lib", .ofText "/w/app/.."] : List Path),
        ¬Holds (shadowing [index] []).view "pkg" near := by decide +kernel
    have nearest : IsNearest (shadowing [index] []).view "pkg" "/w/app/../lib/a.js"
        ["/w/app/../lib", "/w/app/.."] "/w/app" ["/w", "/"] :=
      ⟨by decide, without, .inl (by decide +kernel)⟩
    have inner : HasInnerMain (shadowing [index] []).view (packageIn "pkg" "/w/app") := by
      rintro main ⟨t, read, -⟩
      have unnamed : mainOf (shadowing [index] []).view (packageIn "pkg" "/w/app") = .ok none := by
        decide +kernel
      cases unnamed.symm.trans read
    have same := always _ "pkg" _ _ _ _ "/w" [] (.folder "pkg" [index]) (by decide) (by decide)
      nearest inner (by decide) rfl
    exact absurd same (by decide +kernel)
  · intro always
    let view : FileView := (shadowing [] [.folder "store" []]).view.linking
      "/w/app/node_modules/linked" "/w/node_modules/store"
    have without : ¬Holds view "linked" "/w/app/src" := by decide +kernel
    have nearest : IsNearest view "linked" "/w/app/src/a.js" ["/w/app/src"] "/w/app" ["/w", "/"] :=
      ⟨by decide, List.forall_mem_singleton.mpr without, .inl (by decide +kernel)⟩
    have inner : HasInnerMain view (packageIn "linked" "/w/app") := by
      rintro main ⟨t, read, -⟩
      have unnamed : mainOf view (packageIn "linked" "/w/app") = .ok none := by decide +kernel
      cases unnamed.symm.trans read
    have same := always (shadowing [] [.folder "store" []]) _ _ "linked" _ _ _ _ "/w" ["store"]
      index (by decide) (by decide) (by decide) nearest inner (by decide) rfl
    exact absurd same (by decide +kernel)

end Module

end EnvReads
