import EnvReads.FileSystem
import EnvReads.Proofs.Outcome
import EnvReads.Proofs.PathSpelling
import Mathlib.Data.List.Flatten
import Mathlib.Tactic.SplitIfs

/-!
# Followed paths

Where a path leads. Names that lead down go on from where the path before them leads
(`FileSystem.entry_below_eq_ok_iff`), so what is found below a directory depends on the directory
only (`FileSystem.entry_below_congr`). A path leads where its normal form does, if it leads anywhere
(`FileSystem.entry_normalize`): it passes only directories, and a step down and back comes to where
it started.
-/

namespace EnvReads

namespace Entry

variable {above : List Entry} {here e : Entry} {part : Text} {parts names : List Text}

/-! ## Steps -/

/-- Paths lead through directories that can be searched. -/
theorem pass_eq_ok_iff : here.pass = .ok () ↔ here.isDirectory ∧ here.permissions.search := by
  cases here with
  | file name content => simp [pass, isDirectory]
  | directory name permissions entries => simp [pass, isDirectory, Entry.permissions]

/-- A step down leads to the first entry with the name, if there can be such a name. -/
theorem enter_eq_ok_iff : enter part here = .ok e ↔
    here.pass = .ok () ∧ ¬isTooLong part ∧ find? here.entries part = some e := by
  rw [enter, Except.bind_eq_ok_iff]
  constructor
  · rintro ⟨_, passed, found⟩
    split at found
    · cases found
    · next short =>
        cases there : find? here.entries part with
        | none =>
            rw [there] at found
            cases found
        | some e' =>
            rw [there] at found
            cases found
            exact ⟨passed, short, rfl⟩
  · rintro ⟨passed, short, there⟩
    refine ⟨(), passed, ?_⟩
    rw [if_neg short, there]
    rfl

/-- The first of several steps, if it leads down. -/
theorem follow_forward (forward : part ≠ "..") : follow above here (part :: parts) =
    enter part here >>= fun e => follow (here :: above) e parts := by
  rw [follow, if_neg forward]

/-- The first of several steps, if it leads back. -/
theorem follow_back (passed : here.pass = .ok ()) : follow above here (".." :: parts) =
    follow above.tail (above.headD here) parts := by
  rw [follow, if_pos rfl, passed]
  rfl

/-- Only directories that can be searched are passed. -/
theorem pass_of_follow (followed : follow above here (part :: parts) = .ok e) :
    here.pass = .ok () := by
  rw [follow] at followed
  split at followed
  · obtain ⟨_, passed, -⟩ := Except.bind_eq_ok_iff.mp followed
    exact passed
  · obtain ⟨_, entered, -⟩ := Except.bind_eq_ok_iff.mp followed
    exact (enter_eq_ok_iff.mp entered).1

/-- Names that lead down, one after the other. -/
def descend (names : List Text) (here : Entry) : Except FileFault Entry :=
  names.foldlM (fun e part => enter part e) here

/-- The first of several names that lead down. -/
theorem descend_cons (name : Text) (names : List Text) (here : Entry) :
    descend (name :: names) here = enter name here >>= descend names := rfl

/-- Names that lead down go on from where the parts before them lead. -/
theorem follow_append (forward : Path.IsForward names) :
    follow above here (parts ++ names) = follow above here parts >>= descend names := by
  induction parts generalizing above here with
  | nil =>
      rw [List.nil_append]
      change _ = descend names here
      induction names generalizing above here with
      | nil => rfl
      | cons name names ih =>
          obtain ⟨first, later⟩ := List.forall_mem_cons.mp forward
          rw [follow_forward first, descend_cons]
          exact Except.bind_congr_of_ok fun e _ => ih later
  | cons first parts ih =>
      rw [List.cons_append, follow, follow]
      split
      · cases here.pass with
        | error fault => rfl
        | ok => exact ih
      · cases enter first here with
        | error fault => rfl
        | ok e => exact ih

/-- The last of several steps, if it leads down. -/
theorem follow_concat (forward : part ≠ "..") :
    follow above here (parts ++ [part]) = follow above here parts >>= enter part := by
  rw [follow_append (List.forall_mem_singleton.mpr forward)]
  refine Except.bind_congr_of_ok fun e _ => ?_
  change enter part e >>= Except.ok = _
  cases enter part e <;> rfl

/-! ## Normal forms -/

/-- A step down and back can be left out. -/
theorem follow_of_down_back {rest : List Text} (forward : part ≠ "..")
    (followed : follow above here (parts ++ part :: ".." :: rest) = .ok e) :
    follow above here (parts ++ rest) = .ok e := by
  induction parts generalizing above here with
  | nil =>
      rw [List.nil_append, follow_forward forward] at followed
      obtain ⟨below, -, followed⟩ := Except.bind_eq_ok_iff.mp followed
      rwa [follow_back (pass_of_follow followed)] at followed
  | cons first parts ih =>
      have passed := pass_of_follow followed
      rw [List.cons_append] at followed ⊢
      by_cases back : first = ".."
      · rw [back, follow_back passed] at followed ⊢
        exact ih followed
      · rw [follow_forward back] at followed ⊢
        obtain ⟨below, entered, followed⟩ := Except.bind_eq_ok_iff.mp followed
        exact Except.bind_eq_ok_iff.mpr ⟨below, entered, ih followed⟩

/-- A way that can be followed can be shortened to its normal form, after what is before it. Nothing
is before an absolute way. -/
theorem follow_foldl_keep {absolute : Bool} (start kept : List Text) (top : absolute → start = [])
    (followed : follow [] here (start ++ kept.reverse ++ parts) = .ok e) :
    follow [] here (start ++ (parts.foldl (Path.keep absolute) kept).reverse) = .ok e := by
  induction parts generalizing kept with
  | nil => rwa [List.append_nil] at followed
  | cons part parts ih =>
      rw [List.foldl_cons]
      refine ih _ ?_
      rw [Path.keep]
      split
      · next back =>
          rw [back] at followed
          cases kept with
          | nil =>
              cases absolute with
              | true =>
                  rw [top rfl] at followed ⊢
                  rw [List.append_assoc, List.nil_append, List.reverse_nil, List.nil_append]
                    at followed
                  rwa [follow_back (pass_of_follow followed)] at followed
              | false => simpa [Path.stepBack] using followed
          | cons last before =>
              rw [Path.stepBack]
              split
              · simpa using followed
              · next forward =>
                  rw [List.reverse_cons, ← List.append_assoc, List.append_assoc] at followed
                  exact follow_of_down_back forward followed
      · simpa using followed

end Entry

namespace FileSystem

variable {fs fs' : FileSystem} {p dir : Path} {e : Entry} {names : List Text}

/-! ## Texts of paths -/

/-- Which texts can be given to the operating system as a path. -/
theorem checkText_eq_ok_iff {t : Text} : checkText t = .ok () ↔
    ¬t.any isUnencodable ∧ ¬t.contains 0 ∧ ¬maxPath ≤ (Entry.octets t).length := by
  rw [checkText]
  split_ifs <;> simp_all

/-- Leaving out text does no harm. -/
theorem checkText_of_sublist {t u : Text} (less : t.Sublist u) (h : checkText u = .ok ()) :
    checkText t = .ok () := by
  obtain ⟨encodable, noNull, short⟩ := checkText_eq_ok_iff.mp h
  refine checkText_eq_ok_iff.mpr ⟨?_, ?_, ?_⟩
  · rw [List.any_eq_true] at encodable ⊢
    rintro ⟨c, mem, bad⟩
    exact encodable ⟨c, less.subset mem, bad⟩
  · rw [List.contains_iff_mem] at noNull ⊢
    exact fun null => noNull (less.subset null)
  · have fewer : (Entry.octets t).length ≤ (Entry.octets u).length :=
      (less.flatMap _).length_le
    omega

/-- An anchor alone can be asked about. -/
theorem checkText_of_top (top : p.parts = []) : checkText p.toText = .ok () := by
  obtain ⟨anchor, parts, spelled⟩ := p
  cases top
  cases anchor <;> rfl

/-- What can be asked about in a directory leaves the directory one that can be asked about. -/
theorem checkText_of_below (parts : Path.AreParts names)
    (h : checkText (dir.below names).toText = .ok ()) : checkText dir.toText = .ok () := by
  by_cases top : dir.parts = []
  · exact checkText_of_top top
  · by_cases same : names = []
    · rwa [same, Path.below_nil] at h
    · have inner : (dir.below names).parts ≠ [] := by
        rw [Path.parts_below parts]
        exact fun empty => top (List.append_eq_nil_iff.mp empty).1
      have joined : Text.joinWith "/" (dir.below names).parts = _ :=
        (congrArg _ (Path.parts_below parts)).trans (Text.joinWith_append top same)
      rw [Path.toText_of_parts_ne_nil inner, joined, List.append_assoc, ← List.append_assoc,
        Path.anchor_below parts, ← Path.toText_of_parts_ne_nil top] at h
      exact checkText_of_sublist (List.sublist_append_left _ _) h

/-- A path that can be asked about has a normal form that can be. -/
theorem checkText_normalize (h : checkText p.toText = .ok ()) :
    checkText p.normalize.toText = .ok () := by
  by_cases top : p.normalize.parts = []
  · exact checkText_of_top top
  · have inner : p.parts ≠ [] := by
      intro empty
      exact top (List.sublist_nil.mp (empty ▸ p.normalize_sublist))
    rw [Path.toText_of_parts_ne_nil top]
    rw [Path.toText_of_parts_ne_nil inner] at h
    refine checkText_of_sublist (.append_left ?_ _) h
    exact Text.joinWith_sublist p.normalize_sublist

/-! ## Entries at paths -/

/-- What stands at a path is where its components lead to from the root. -/
theorem entry_eq_ok_iff : fs.entry p = .ok e ↔
    checkText p.toText = .ok () ∧ fs.root.follow [] (fs.cwd.join p).parts = .ok e := by
  rw [entry, Except.bind_eq_ok_iff]
  constructor
  · rintro ⟨_, checked, followed⟩
    exact ⟨checked, followed⟩
  · rintro ⟨checked, followed⟩
    exact ⟨(), checked, followed⟩

/-- Names below a path come after it, wherever it starts. -/
theorem parts_join_below (parts : Path.AreParts names) (cwd : Path) :
    (cwd.join (dir.below names)).parts = (cwd.join dir).parts ++ names := by
  rw [Path.join, Path.join, Path.isAbsolute_below parts]
  split
  · exact Path.parts_below parts
  · dsimp only
    rw [Path.parts_below parts, List.append_assoc]

/-- What stands below a directory is reached through the directory. -/
theorem entry_below_eq_ok_iff (parts : Path.AreParts names) (forward : Path.IsForward names) :
    fs.entry (dir.below names) = .ok e ↔ checkText (dir.below names).toText = .ok () ∧
      ∃ d, fs.entry dir = .ok d ∧ d.descend names = .ok e := by
  rw [entry_eq_ok_iff, parts_join_below parts, Entry.follow_append forward,
    Except.bind_eq_ok_iff]
  refine and_congr_right fun checked => ?_
  constructor
  · rintro ⟨d, followed, entered⟩
    exact ⟨d, entry_eq_ok_iff.mpr ⟨checkText_of_below parts checked, followed⟩, entered⟩
  · rintro ⟨d, found, entered⟩
    exact ⟨d, (entry_eq_ok_iff.mp found).2, entered⟩

/-- Where a directory is the same, so is all that is in it. -/
theorem entry_below_congr (h : fs.entry dir = fs'.entry dir) (parts : Path.AreParts names)
    (forward : Path.IsForward names) :
    fs.entry (dir.below names) = fs'.entry (dir.below names) := by
  rw [entry, entry]
  cases checked : checkText (dir.below names).toText with
  | error fault => rfl
  | ok =>
      have same : fs.root.follow [] (fs.cwd.join dir).parts =
          fs'.root.follow [] (fs'.cwd.join dir).parts := by
        rwa [entry, entry, checkText_of_below parts checked] at h
      change fs.root.follow _ _ = fs'.root.follow _ _
      rw [parts_join_below parts, parts_join_below parts, Entry.follow_append forward, same,
        Entry.follow_append forward]

/-- Where a path leads, its normal form leads too. -/
theorem entry_normalize (h : fs.entry p = .ok e) : fs.entry p.normalize = .ok e := by
  obtain ⟨checked, followed⟩ := entry_eq_ok_iff.mp h
  refine entry_eq_ok_iff.mpr ⟨checkText_normalize checked, ?_⟩
  rw [Path.join] at followed ⊢
  by_cases absolute : p.isAbsolute
  · rw [if_pos absolute] at followed
    rw [if_pos (show p.normalize.isAbsolute from absolute)]
    exact Entry.follow_foldl_keep [] [] (fun _ => rfl) followed
  · rw [if_neg absolute] at followed
    rw [if_neg (show ¬p.normalize.isAbsolute from absolute)]
    refine Entry.follow_foldl_keep fs.cwd.parts [] (fun yes => absurd yes absolute) ?_
    rwa [List.reverse_nil, List.append_nil]

/-! ## What is asked about paths -/

/-- A directory is found where one stands. -/
theorem directory_eq_ok_iff : fs.directory p = .ok e ↔ fs.entry p = .ok e ∧ e.isDirectory := by
  rw [directory]
  cases fs.entry p with
  | error fault => simp
  | ok found =>
      cases found with
      | file name content =>
          simp only [reduceCtorEq, Except.ok.injEq, false_iff, not_and]
          rintro rfl
          exact Bool.false_ne_true
      | directory name permissions entries =>
          simp only [Except.ok.injEq, iff_self_and]
          rintro rfl
          rfl

/-- A directory can be listed if it can be read. -/
theorem list_eq_ok_iff {entries : List Entry} : fs.list p = .ok entries ↔
    ∃ name permissions, fs.entry p = .ok (.directory name permissions entries) ∧
      permissions.read := by
  rw [list, Except.bind_eq_ok_iff]
  constructor
  · rintro ⟨e, found, listed⟩
    obtain ⟨found, isDirectory⟩ := directory_eq_ok_iff.mp found
    cases e with
    | file name content => cases isDirectory
    | directory name permissions entries' =>
        split at listed
        · next readable =>
            cases listed
            exact ⟨name, permissions, found, readable⟩
        · cases listed
  · rintro ⟨name, permissions, found, readable⟩
    exact ⟨_, directory_eq_ok_iff.mpr ⟨found, rfl⟩, if_pos readable⟩

/-- A file can be opened if it can be read. -/
theorem file_eq_ok_iff {content : File} : fs.file p = .ok content ↔
    ∃ name, fs.entry p = .ok (.file name content) ∧ content.permissions.read := by
  rw [file]
  cases fs.entry p with
  | error fault => simp
  | ok e =>
      cases e with
      | directory name permissions entries => simp
      | file name content' =>
          simp only [Except.ok.injEq, Entry.file.injEq]
          split
          · next readable =>
              constructor
              · rintro ⟨⟩
                exact ⟨name, ⟨rfl, rfl⟩, readable⟩
              · rintro ⟨_, ⟨-, rfl⟩, -⟩
                rfl
          · next unreadable =>
              simp only [reduceCtorEq, false_iff]
              rintro ⟨_, ⟨-, rfl⟩, readable⟩
              exact unreadable readable

/-- What can be read is a file. -/
theorem exists_file_of_readText {t : Text} (h : fs.readText p = .ok t) :
    ∃ content, fs.file p = .ok content := by
  rw [readText] at h
  split at h
  · cases h
  · next content read => exact ⟨content, read⟩

/-- A path leads to a directory if one stands there. -/
theorem isDirectory_eq_true_iff : fs.isDirectory p = .ok true ↔
    ∃ e, fs.entry p = .ok e ∧ e.isDirectory := by
  simp only [isDirectory, FileView.isDirectory, view, lookAt]
  cases fs.entry p with
  | error fault => cases fault <;> simp [Except.map]
  | ok e => cases e <;> simp [Except.map, Entry.isDirectory]

/-- A path leads to a file if one stands there. -/
theorem isFile_eq_true_iff : fs.isFile p = .ok true ↔
    ∃ name content, fs.entry p = .ok (.file name content) := by
  simp only [isFile, FileView.isFile, view, lookAt]
  cases fs.entry p with
  | error fault => cases fault <;> simp [Except.map]
  | ok e => cases e <;> simp [Except.map, Entry.isDirectory]

theorem isFile_of_readText {t : Text} (h : fs.readText p = .ok t) : fs.isFile p = .ok true := by
  obtain ⟨content, read⟩ := exists_file_of_readText h
  obtain ⟨name, found, -⟩ := file_eq_ok_iff.mp read
  exact isFile_eq_true_iff.mpr ⟨name, content, found⟩

end FileSystem

end EnvReads
