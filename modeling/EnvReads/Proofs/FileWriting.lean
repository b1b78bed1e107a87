import EnvReads.Proofs.FollowedPaths
import Mathlib.Data.List.Forall2
import Mathlib.Tactic.SplitIfs

/-!
# Written files

What is written to a file is found there afterwards (`FileSystem.Writes.entry`), and wherever a
path has led it still leads, to the same kind of entry (`FileSystem.Writes.exists_entry`). A path
is followed step by step, where `..` leads back, while a new entry is put where the normalized path
leads; since what is passed on the way are directories, both come to the same place.
-/

namespace EnvReads

/-! ## Names as octets -/

namespace CodePoint

/-- The number of octets that come after the first octet of a code point. -/
def following (octet : UInt8) : Nat :=
  if octet.toNat < 0x80 then 0
  else if octet.toNat < 0xE0 then 1
  else if octet.toNat < 0xF0 then 2
  else 3

theorem toNat_ofNat {n : Nat} (h : n < 256) : (UInt8.ofNat n).toNat = n :=
  UInt8.toNat_ofNat_of_lt' h

/-- The first octet of a code point tells how many follow. -/
theorem exists_first (c : CodePoint) :
    ∃ first rest, c.utf8 = first :: rest ∧ rest.length = following first := by
  have bound := c.isLt
  simp only [utf8]
  split_ifs
  · refine ⟨_, _, rfl, ?_⟩
    rw [following, toNat_ofNat (by omega), if_pos (by omega)]
    rfl
  · refine ⟨_, _, rfl, ?_⟩
    rw [following, toNat_ofNat (by omega), if_neg (by omega), if_pos (by omega)]
    rfl
  · refine ⟨_, _, rfl, ?_⟩
    rw [following, toNat_ofNat (by omega), if_neg (by omega), if_neg (by omega), if_pos (by omega)]
    rfl
  · refine ⟨_, _, rfl, ?_⟩
    rw [following, toNat_ofNat (by omega), if_neg (by omega), if_neg (by omega), if_neg (by omega)]
    rfl

theorem ofNat_inj {m n : Nat} (first : m < 256) (second : n < 256)
    (same : UInt8.ofNat m = UInt8.ofNat n) : m = n := by
  rw [← toNat_ofNat first, ← toNat_ofNat second, same]

/-- Different code points have different octets. -/
theorem utf8_inj {c d : CodePoint} (h : c.utf8 = d.utf8) : c = d := by
  have boundC := c.isLt
  have boundD := d.isLt
  rw [Fin.ext_iff]
  simp only [utf8] at h
  split_ifs at h <;> simp only [List.cons.injEq, reduceCtorEq, and_false, and_true] at h
  · exact ofNat_inj (by omega) (by omega) h
  · have first := ofNat_inj (by omega) (by omega) h.1
    have second := ofNat_inj (by omega) (by omega) h.2
    omega
  · have first := ofNat_inj (by omega) (by omega) h.1
    have second := ofNat_inj (by omega) (by omega) h.2.1
    have third := ofNat_inj (by omega) (by omega) h.2.2
    omega
  · have first := ofNat_inj (by omega) (by omega) h.1
    have second := ofNat_inj (by omega) (by omega) h.2.1
    have third := ofNat_inj (by omega) (by omega) h.2.2.1
    have fourth := ofNat_inj (by omega) (by omega) h.2.2.2
    omega

/-- The octets of a code point tell where they end. -/
theorem utf8_append_inj {c d : CodePoint} {r s : List UInt8} (h : c.utf8 ++ r = d.utf8 ++ s) :
    c = d ∧ r = s := by
  obtain ⟨first, rest, eqC, lengthC⟩ := exists_first c
  obtain ⟨first', rest', eqD, lengthD⟩ := exists_first d
  have same : first = first' := by
    rw [eqC, eqD] at h
    exact (List.cons.inj h).1
  have long : c.utf8.length = d.utf8.length := by
    rw [eqC, eqD, List.length_cons, List.length_cons, lengthC, lengthD, same]
  obtain ⟨equal, after⟩ := List.append_inj h long
  exact ⟨utf8_inj equal, after⟩

end CodePoint

namespace Entry

variable {s t u : Text}

theorem octets_cons (c : CodePoint) (t : Text) :
    octets (c :: t) = (if isOctet c then [UInt8.ofNat (c.val - 0xDC00)] else c.utf8) ++ octets t :=
  rfl

/-- Texts whose code points all stand for characters are given by their octets. -/
theorem eq_of_octets (plainS : ¬s.any isOctet) (plainT : ¬t.any isOctet)
    (same : octets s = octets t) : s = t := by
  have nonempty : ∀ c : CodePoint, c.utf8 ≠ [] := by
    intro c empty
    obtain ⟨first, rest, eq, -⟩ := c.exists_first
    rw [eq] at empty
    cases empty
  simp only [List.any_eq_true, not_exists, not_and, Bool.not_eq_true] at plainS plainT
  induction s generalizing t with
  | nil =>
      cases t with
      | nil => rfl
      | cons d t =>
          rw [octets_cons, plainT d (.head _), if_neg Bool.false_ne_true] at same
          exact absurd (List.append_eq_nil_iff.mp same.symm).1 (nonempty d)
  | cons c s ih =>
      rw [octets_cons, plainS c (.head _), if_neg Bool.false_ne_true] at same
      cases t with
      | nil => exact absurd (List.append_eq_nil_iff.mp same).1 (nonempty c)
      | cons d t =>
          rw [octets_cons, plainT d (.head _), if_neg Bool.false_ne_true] at same
          obtain ⟨rfl, rest⟩ := CodePoint.utf8_append_inj same
          rw [ih rest (fun c member => plainS c (.tail _ member))
            fun c member => plainT c (.tail _ member)]

/-- Names are the same if their octets are. -/
theorem sameName_iff : sameName s t ↔ octets s = octets t := by
  rw [sameName, Bool.or_eq_true, Bool.and_eq_true, decide_eq_true_eq, decide_eq_true_eq,
    Bool.or_eq_true]
  constructor
  · rintro (rfl | ⟨-, same⟩)
    · rfl
    · exact same
  · intro same
    by_cases raw : s.any isOctet ∨ t.any isOctet
    · exact .inr ⟨raw, same⟩
    · rw [not_or] at raw
      exact .inl (eq_of_octets raw.1 raw.2 same)

/-! ## Entries by their names -/

variable {entries below : List Entry} {new e a : Entry} {part name : Text} {names : List Text}

/-- What is found has the name that was looked for, as far as octets tell. -/
theorem name_of_find? (h : find? entries part = some e) : octets e.name = octets part := by
  have found := List.find?_some h
  exact sameName_iff.mp found

/-- An entry is found by any text for its octets. -/
theorem find?_congr (same : octets part = octets name) :
    find? entries part = find? entries name := by
  have pointwise : (fun e : Entry => sameName e.name part) = fun e => sameName e.name name := by
    funext e
    rw [Bool.eq_iff_iff, sameName_iff, sameName_iff, same]
  rw [find?, find?, pointwise]

/-- The first entry is found if it has the name. -/
theorem find?_cons : find? (e :: entries) part =
    if octets e.name = octets part then some e else find? entries part := by
  rw [find?, List.find?_cons]
  by_cases same : octets e.name = octets part
  · rw [if_pos same, sameName_iff.mpr same]
  · rw [if_neg same, Bool.eq_false_iff.mpr fun found => same (sameName_iff.mp found)]
    rfl

/-- The first entry is replaced if it has the name. -/
theorem insert_cons : insert new (e :: entries) =
    if octets e.name = octets new.name then new :: entries else e :: insert new entries := by
  rw [insert]
  simp only [sameName_iff]

/-- What is put into a directory is found there. -/
theorem find?_insert_self (same : octets new.name = octets part) :
    find? (insert new entries) part = some new := by
  induction entries with
  | nil => rw [insert, find?_cons, if_pos same]
  | cons e rest ih =>
      rw [insert_cons]
      split
      · rw [find?_cons, if_pos same]
      · next other => rw [find?_cons, if_neg (fun eq => other (eq.trans same.symm)), ih]

/-- What has another name stays as it is. -/
theorem find?_insert_of_ne (other : octets new.name ≠ octets part) :
    find? (insert new entries) part = find? entries part := by
  induction entries with
  | nil => rw [insert, find?_cons, if_neg other]
  | cons e rest ih =>
      rw [insert_cons]
      split
      · next same => rw [find?_cons, find?_cons, if_neg other, if_neg (same ▸ other)]
      · rw [find?_cons, find?_cons, ih]

/-- What putting an entry into a directory makes of an entry on the way. -/
def passing (new : Entry) (part : Text) (rest : List Text) : Entry → Entry
  | directory name permissions below =>
    if sameName name part then directory name permissions (insertAt new rest below)
    else directory name permissions below
  | file name content => file name content

theorem insertAt_cons : insertAt new (part :: names) entries =
    entries.map (passing new part names) := by
  rw [insertAt]
  refine List.map_congr_left fun e _ => ?_
  cases e <;> rfl

/-- Putting something into a directory leaves its name. -/
theorem name_passing : (passing new part names e).name = e.name := by
  cases e with
  | file name content => rfl
  | directory name permissions below =>
      rw [passing]
      split <;> rfl

/-- What is found after something was put further down. -/
theorem find?_insertAt_cons : find? (insertAt new (part :: names) entries) name =
    (find? entries name).map (passing new part names) := by
  rw [insertAt_cons, find?, find?, List.find?_map]
  simp only [Function.comp_def, name_passing]

/-! ## Trees that grow -/

/-- Two entries of one kind, with which the same can be done. -/
structure Alike (e e' : Entry) : Prop where
  isDirectory : e'.isDirectory = e.isDirectory
  permissions : e'.permissions = e.permissions

theorem Alike.pass_eq {e' : Entry} (h : Alike e e') : e'.pass = .ok () ↔ e.pass = .ok () := by
  rw [pass_eq_ok_iff, pass_eq_ok_iff, h.isDirectory, h.permissions]

/-- Where names lead to an entry, they still lead to one that is alike. -/
def Grows (e e' : Entry) : Prop :=
  ∀ names a, e.descend names = .ok a → ∃ a', e'.descend names = .ok a' ∧ Alike a a'

variable {e' : Entry}

/-- Nothing is lost where nothing changes. -/
theorem Grows.refl (e : Entry) : Grows e e :=
  fun _ a found => ⟨a, found, rfl, rfl⟩

/-- What grows stays alike. -/
theorem Grows.alike (h : Grows e e') : Alike e e' := by
  obtain ⟨_, ⟨⟩, alike⟩ := h [] e rfl
  exact alike

/-- A step down can still be taken, to a tree that has grown. -/
theorem Grows.enter (h : Grows e e') (entered : e.enter part = .ok a) :
    ∃ a', e'.enter part = .ok a' ∧ Grows a a' := by
  have down : ∀ {e a : Entry}, e.enter part = .ok a → ∀ names,
      e.descend (part :: names) = a.descend names := by
    intro e a entered names
    rw [descend_cons, entered]
    rfl
  obtain ⟨a', found, -⟩ := h [part] a (down entered [])
  rw [descend_cons] at found
  obtain ⟨a'', entered', ⟨⟩⟩ := Except.bind_eq_ok_iff.mp found
  refine ⟨a', entered', fun names b found => ?_⟩
  rw [← down entered] at found
  obtain ⟨b', found', alike⟩ := h _ b found
  exact ⟨b', by rwa [down entered'] at found', alike⟩

/-- A tree grows if what is found in it by name does. -/
theorem grows_of_enter (alike : Alike e e') (each : ∀ part a, find? e.entries part = some a →
    ∃ a', find? e'.entries part = some a' ∧ Grows a a') : Grows e e' := by
  rintro (_ | ⟨part, names⟩) a found
  · cases found
    exact ⟨e', rfl, alike⟩
  · rw [descend_cons] at found
    obtain ⟨b, entered, later⟩ := Except.bind_eq_ok_iff.mp found
    obtain ⟨passed, short, there⟩ := enter_eq_ok_iff.mp entered
    obtain ⟨b', there', grows⟩ := each part b there
    obtain ⟨a', later', same⟩ := grows names a later
    refine ⟨a', ?_, same⟩
    rw [descend_cons]
    exact Except.bind_eq_ok_iff.mpr
      ⟨b', enter_eq_ok_iff.mpr ⟨alike.pass_eq.mpr passed, short, there'⟩, later'⟩

theorem grows_file (alike : Alike e e') (isFile : ¬e.isDirectory) : Grows e e' := by
  refine grows_of_enter alike fun part a found => ?_
  cases e with
  | file name content => cases found
  | directory name permissions entries => exact absurd rfl isFile

/-- What is passed to get to an entry below is a directory, and so is what the entry is put into. -/
theorem exists_directory_of_descend {there : Text} {permissions : Permissions}
    (found : e.descend names = .ok (.directory there permissions below)) :
    ∃ name permissions entries, e = .directory name permissions entries := by
  cases e with
  | directory name permissions entries => exact ⟨name, permissions, entries, rfl⟩
  | file name content => cases names <;> cases found

variable {here there : Text} {permissions inner : Permissions}

/-- The directory that an entry is put into has it afterwards. -/
theorem descend_insertAt (new : Entry)
    (found : (directory here permissions entries).descend names =
      .ok (.directory there inner below)) :
    (directory here permissions (insertAt new names entries)).descend names =
      .ok (.directory there inner (insert new below)) := by
  induction names generalizing here permissions entries with
  | nil =>
      cases found
      rfl
  | cons part names ih =>
      rw [descend_cons] at found ⊢
      obtain ⟨e, entered, rest⟩ := Except.bind_eq_ok_iff.mp found
      obtain ⟨passed, short, first⟩ := enter_eq_ok_iff.mp entered
      obtain ⟨name, permissions', inside, rfl⟩ := exists_directory_of_descend rest
      have same : sameName name part := sameName_iff.mpr (name_of_find? first)
      refine Except.bind_eq_ok_iff.mpr ⟨.directory name permissions' (insertAt new names inside),
        enter_eq_ok_iff.mpr ⟨passed, short, ?_⟩, ih rest⟩
      have next : find? (insertAt new (part :: names) entries) part = _ := find?_insertAt_cons
      rw [show find? entries part = _ from first, Option.map_some, passing, if_pos same] at next
      exact next

/-- Putting an entry into a directory takes nothing away, if what has its name is a file alike. -/
theorem grows_insertAt
    (found : (directory here permissions entries).descend names =
      .ok (.directory there inner below))
    (free : ∀ e, find? below new.name = some e → ¬e.isDirectory ∧ Alike e new) :
    Grows (directory here permissions entries)
      (directory here permissions (insertAt new names entries)) := by
  induction names generalizing here permissions entries with
  | nil =>
      cases found
      refine grows_of_enter ⟨rfl, rfl⟩ fun part e first => ?_
      by_cases same : octets new.name = octets part
      · obtain ⟨isFile, alike⟩ := free e (by rw [find?_congr same]; exact first)
        exact ⟨new, find?_insert_self same, grows_file alike isFile⟩
      · exact ⟨e, (find?_insert_of_ne same).trans first, .refl e⟩
  | cons part names ih =>
      rw [descend_cons] at found
      obtain ⟨e, entered, rest⟩ := Except.bind_eq_ok_iff.mp found
      obtain ⟨-, -, first⟩ := enter_eq_ok_iff.mp entered
      refine grows_of_enter ⟨rfl, rfl⟩ fun other a firstA => ?_
      refine ⟨passing new part names a, ?_, ?_⟩
      · have next : find? (insertAt new (part :: names) entries) other = _ := find?_insertAt_cons
        rw [show find? entries other = _ from firstA] at next
        exact next
      · cases a with
        | file name content => exact .refl _
        | directory name permissions inside =>
            rw [passing]
            split
            · next same =>
                have one : octets other = octets part :=
                  (name_of_find? firstA).symm.trans (sameName_iff.mp same)
                rw [find?_congr one, first] at firstA
                cases firstA
                exact ih rest
            · exact .refl _

/-- In a tree that has grown the same ways can be gone. -/
theorem follow_of_grows {above above' : List Entry} {here here' : Entry} {parts : List Text}
    (around : List.Forall₂ Grows above above') (grows : Grows here here')
    (followed : follow above here parts = .ok e) :
    ∃ e', follow above' here' parts = .ok e' ∧ Grows e e' := by
  induction parts generalizing above above' here here' with
  | nil =>
      cases followed
      exact ⟨here', rfl, grows⟩
  | cons part rest ih =>
      have passed := pass_of_follow followed
      by_cases back : part = ".."
      · rw [back, follow_back passed] at followed
        rw [back, follow_back (grows.alike.pass_eq.mpr passed)]
        cases around with
        | nil => exact ih .nil grows followed
        | cons nearest rest => exact ih rest nearest followed
      · rw [follow_forward back] at followed ⊢
        obtain ⟨a, entered, later⟩ := Except.bind_eq_ok_iff.mp followed
        obtain ⟨a', entered', grown⟩ := grows.enter entered
        rw [entered']
        exact ih (.cons grows around) grown later

/-- A way that can be followed comes to where its normal form leads down. -/
theorem descend_of_follow {root : Entry} {parts : List Text}
    (followed : follow [] root parts = .ok e) :
    root.descend (Path.normalizeParts true parts) = .ok e := by
  have shortened : follow [] root (Path.normalizeParts true parts) = .ok e :=
    follow_foldl_keep [] [] (fun _ => rfl) followed
  have down : follow [] root ([] ++ Path.normalizeParts true parts) = _ :=
    follow_append (Path.isForward_normalizeParts parts)
  rw [List.nil_append, shortened] at down
  exact down.symm

end Entry

namespace FileSystem

/-! ## Writing -/

variable {fs fs' : FileSystem} {p q : Path} {parent : List Text} {last : Text}
  {octets : List UInt8} {e : Entry}

/-- The last component comes last, wherever the path starts. -/
theorem parts_join (cwd : Path) (named : p.parts = parent ++ [last]) :
    (cwd.join p).parts = (cwd.join p.parent).parts ++ [last] := by
  have part : Path.AreParts [last] := fun name mem =>
    p.spelled name (by rw [named]; exact List.mem_append_right _ mem)
  have whole : p = p.parent.below [last] := by
    refine Path.eq_below part rfl ?_
    have before : p.parent.parts = p.parts.dropLast := rfl
    rw [before, named, List.dropLast_concat]
  rw [← parts_join_below part, ← whole]

theorem checkText_ne_notFound (t : Text) : checkText t ≠ .error .notFound := by
  rw [checkText]
  split_ifs <;> simp

/-- A path at which nothing is found can be asked for. -/
theorem follow_of_notFound (h : fs.entry p = .error .notFound) : checkText p.toText = .ok () ∧
    fs.root.follow [] (fs.cwd.join p).parts = .error .notFound := by
  rw [entry] at h
  cases checked : checkText p.toText with
  | ok => exact ⟨rfl, by rwa [checked] at h⟩
  | error fault =>
      rw [checked] at h
      cases h
      exact absurd checked (checkText_ne_notFound _)

/-- Where a step down finds nothing, the directory can be searched and has no such name. -/
theorem enter_eq_notFound (h : e.enter last = .error .notFound) :
    e.pass = .ok () ∧ ¬Entry.isTooLong last ∧ Entry.find? e.entries last = none := by
  rw [Entry.enter] at h
  cases passed : e.pass with
  | error fault =>
      rw [passed] at h
      cases h
      cases e with
      | file name content => cases passed
      | directory name permissions entries =>
          rw [Entry.pass] at passed
          split at passed <;> cases passed
  | ok =>
      rw [passed] at h
      change (if Entry.isTooLong last then _ else _) = _ at h
      split at h
      · cases h
      · next short =>
          cases found : Entry.find? e.entries last with
          | none => exact ⟨rfl, short, rfl⟩
          | some e' =>
              rw [found] at h
              cases h

/-- A file is written into the directory above it, in place of the file that has its name. -/
structure Writes (fs : FileSystem) (p : Path) (octets : List UInt8) (last : Text)
    (fs' : FileSystem) (dir : Entry) (name : Text) (permissions : Permissions) : Prop where
  checked : checkText p.toText = .ok ()
  followed : fs.root.follow [] (fs.cwd.join p.parent).parts = .ok dir
  passed : dir.pass = .ok ()
  short : ¬Entry.isTooLong last
  same : Entry.octets name = Entry.octets last
  free : ∀ e, Entry.find? dir.entries last = some e →
    ¬e.isDirectory ∧ e.permissions = permissions
  writable : permissions.write
  eq : fs' = fs.insert p.parent (.file name { octets, permissions })

/-- A file that can be written has a directory that it is written to. -/
theorem exists_writes (named : p.parts = parent ++ [last]) (forward : last ≠ "..")
    (h : fs.write p octets = .ok fs') :
    ∃ dir name permissions, fs.Writes p octets last fs' dir name permissions := by
  have name_eq : p.name = last := by
    rw [Path.name, named, List.getLast?_concat, Option.getD_some]
  rw [write] at h
  split at h
  · cases h
  · next name _ _ permissions found =>
      split at h
      case isFalse => cases h
      case isTrue writable =>
        cases h
        obtain ⟨checked, followed⟩ := entry_eq_ok_iff.mp found
        rw [parts_join _ named, Entry.follow_concat forward] at followed
        obtain ⟨dir, before, entered⟩ := Except.bind_eq_ok_iff.mp followed
        obtain ⟨passed, short, there⟩ := Entry.enter_eq_ok_iff.mp entered
        refine ⟨dir, name, permissions, checked, before, passed, short, Entry.name_of_find? there,
          fun e again => ?_, writable, rfl⟩
        cases there.symm.trans again
        exact ⟨Bool.false_ne_true, rfl⟩
  · next fault missing =>
      split at h
      case isFalse => cases h
      case isTrue new =>
        obtain ⟨rfl, -⟩ := new
        obtain ⟨dir, found, created⟩ := Except.bind_eq_ok_iff.mp h
        obtain ⟨-, before⟩ := entry_eq_ok_iff.mp (directory_eq_ok_iff.mp found).1
        obtain ⟨checked, followed⟩ := follow_of_notFound missing
        rw [parts_join _ named, Entry.follow_concat forward, before] at followed
        obtain ⟨passed, short, free⟩ := enter_eq_notFound followed
        split at created
        case isFalse => cases created
        cases created
        refine ⟨dir, last, {}, checked, before, passed, short, rfl, fun e there => ?_, rfl,
          by rw [name_eq]⟩
        rw [free] at there
        cases there

/-! ## After writing -/

section

variable {dir : Entry} {name : Text} {permissions : Permissions}
  (w : fs.Writes p octets last fs' dir name permissions)

include w

/-- Writing leaves the working directory. -/
theorem Writes.cwd : fs'.cwd = fs.cwd := by
  rw [w.eq]
  rfl

/-- Writing leaves all other entries. -/
theorem Writes.grows : Entry.Grows fs.root fs'.root := by
  obtain ⟨isDirectory, -⟩ := Entry.pass_eq_ok_iff.mp w.passed
  cases dir with
  | file there content => cases isDirectory
  | directory there inner below =>
      rw [w.eq]
      refine Entry.grows_insertAt (Entry.descend_of_follow w.followed) fun e found => ?_
      have found : Entry.find? below last = some e := by
        rw [← found]
        exact Entry.find?_congr w.same.symm
      obtain ⟨isFile, same⟩ := w.free e found
      exact ⟨isFile, (Bool.eq_false_iff.mpr isFile).symm, same.symm⟩

/-- What is written is there afterwards. -/
theorem Writes.entry (named : p.parts = parent ++ [last]) (forward : last ≠ "..") :
    fs'.entry p = .ok (.file name { octets, permissions }) := by
  obtain ⟨here, followed, -⟩ := Entry.follow_of_grows .nil w.grows w.followed
  refine entry_eq_ok_iff.mpr ⟨w.checked, ?_⟩
  rw [parts_join _ named, Entry.follow_concat forward, w.cwd, followed]
  obtain ⟨isDirectory, -⟩ := Entry.pass_eq_ok_iff.mp w.passed
  cases dir with
  | file there content => cases isDirectory
  | directory there inner below =>
      -- Both trees are followed to the place that the normalized path names.
      have arrived := Entry.descend_of_follow followed
      have put := Entry.descend_insertAt (.file name { octets, permissions })
        (Entry.descend_of_follow w.followed)
      rw [w.eq] at arrived
      cases put.symm.trans arrived
      exact Entry.enter_eq_ok_iff.mpr ⟨w.passed, w.short, Entry.find?_insert_self w.same⟩

/-- Wherever a path has led, it still leads to an entry alike. -/
theorem Writes.exists_entry (found : fs.entry q = .ok e) :
    ∃ e', fs'.entry q = .ok e' ∧ Entry.Alike e e' := by
  obtain ⟨checked, followed⟩ := entry_eq_ok_iff.mp found
  obtain ⟨e', followed', grows⟩ := Entry.follow_of_grows .nil w.grows followed
  refine ⟨e', entry_eq_ok_iff.mpr ⟨checked, ?_⟩, grows.alike⟩
  rwa [w.cwd]

end

end FileSystem

/-! ## Paths given as text -/

namespace Text

variable {sep : CodePoint}

theorem exists_splitOn_append {last : Text} (plain : sep ∉ last) (t : Text) :
    ∃ first rest, splitOn sep (t ++ sep :: last) = first :: (rest ++ [last]) := by
  induction t with
  | nil =>
      rw [List.nil_append, splitOn, if_pos rfl, splitOn_of_not_mem plain]
      exact ⟨[], [], rfl⟩
  | cons c t ih =>
      obtain ⟨first, rest, eq⟩ := ih
      rw [List.cons_append, splitOn, eq]
      split
      · exact ⟨[], first :: rest, rfl⟩
      · exact ⟨c :: first, rest, rfl⟩

end Text

namespace FileSystem

variable {fs fs' : FileSystem} {t : Text} {octets more : List UInt8}

/-- Writing under a text is writing to its path, if the text can be that of a file. -/
theorem writeAt_eq_ok_iff : fs.writeAt t octets = .ok fs' ↔
    checkText t = .ok () ∧ ¬t.isEmpty ∧ ¬(splitLast t).2.isEmpty ∧
      (∃ dir, fs.entry (Path.ofText (splitLast t).1) = .ok dir ∧ dir.pass = .ok ()) ∧
      ¬((splitLast t).2 = "." || (splitLast t).2 = ".." || Text.endsWith "/" t) ∧
      fs.write (Path.ofText t) octets = .ok fs' := by
  rw [writeAt, Except.bind_eq_ok_iff]
  constructor
  · rintro ⟨_, checked, h⟩
    refine ⟨checked, ?_⟩
    simp only at h
    split at h
    case isTrue => cases h
    case isFalse more =>
      split at h
      case isTrue => cases h
      case isFalse named =>
        obtain ⟨dir, found, h⟩ := Except.bind_eq_ok_iff.mp h
        obtain ⟨_, passed, h⟩ := Except.bind_eq_ok_iff.mp h
        split at h
        case isTrue => cases h
        case isFalse isFile => exact ⟨more, named, ⟨dir, found, passed⟩, isFile, h⟩
  · rintro ⟨checked, more, named, ⟨dir, found, passed⟩, isFile, written⟩
    refine ⟨(), checked, ?_⟩
    simp only [if_neg more, if_neg named]
    rw [found]
    change dir.pass >>= _ = _
    rw [passed]
    exact (if_neg isFile).trans written

theorem splitLast_eq (open' : ¬Text.endsWith "/" t) :
    (splitLast t).2 = (t.reverse.takeWhile (· != CodePoint.slash)).reverse := by
  have kept : Text.dropEndWhile (· = CodePoint.slash) t = t := by
    rw [Text.dropEndWhile]
    cases eq : t.reverse with
    | nil => rw [List.dropWhile_nil, List.reverse_nil, List.reverse_eq_nil_iff.mp eq]
    | cons c rest =>
        have other : c ≠ CodePoint.slash := by
          rintro rfl
          refine open' (List.isSuffixOf_iff_suffix.mpr ⟨rest.reverse, ?_⟩)
          rw [← List.reverse_reverse t, eq, List.reverse_cons]
          rfl
        rw [List.dropWhile_cons_of_neg (by simpa using other), ← eq, List.reverse_reverse]
  simp only [splitLast, kept]

/-- A text that does not end with a slash is a name after a slash, or a name alone. -/
theorem exists_splitOn_splitLast (notSlash : ¬Text.endsWith "/" t) :
    ∃ before, t.splitOn CodePoint.slash = before ++ [(splitLast t).2] := by
  have eq := splitLast_eq notSlash
  have plain : CodePoint.slash ∉ (splitLast t).2 := by
    rw [eq, List.mem_reverse]
    intro member
    have other := List.all_eq_true.mp (List.all_takeWhile (l := t.reverse)) _ member
    exact absurd rfl (bne_iff_ne.mp other)
  have whole : t = (t.reverse.dropWhile (· != CodePoint.slash)).reverse ++ (splitLast t).2 := by
    rw [eq, ← List.reverse_append, List.takeWhile_append_dropWhile, List.reverse_reverse]
  cases front : t.reverse.dropWhile (· != CodePoint.slash) with
  | nil =>
      rw [front, List.reverse_nil, List.nil_append] at whole
      rw [← whole] at plain ⊢
      exact ⟨[], Text.splitOn_of_not_mem plain⟩
  | cons c rest =>
      have slash : c = CodePoint.slash := by
        have := List.head?_dropWhile_not (· != CodePoint.slash) t.reverse
        rw [front] at this
        simpa using this
      rw [front, List.reverse_cons, List.append_assoc, List.singleton_append, slash] at whole
      obtain ⟨first, parts, split⟩ := Text.exists_splitOn_append plain rest.reverse
      refine ⟨first :: parts, ?_⟩
      rw [List.cons_append, ← split, ← whole]

/-- The text of a file ends with a name. -/
theorem exists_parts_ofText (named : ¬(splitLast t).2.isEmpty)
    (isFile : ¬((splitLast t).2 = "." || (splitLast t).2 = ".." || Text.endsWith "/" t)) :
    ∃ (parent : List Text) (last : Text), (Path.ofText t).parts = parent ++ [last] ∧
      last ≠ ".." := by
  simp only [Bool.or_eq_true, decide_eq_true_eq, not_or] at isFile
  obtain ⟨⟨notDot, notBack⟩, notSlash⟩ := isFile
  obtain ⟨before, split⟩ := exists_splitOn_splitLast notSlash
  refine ⟨before.filter fun part => !part.isEmpty && part != ".", _, ?_, notBack⟩
  rw [Path.parts_ofText, Path.partsOf, split, List.filter_append,
    List.filter_cons_of_pos (by simp [named, notDot])]
  rfl

/-- The text of a path that can be written to spells a component at its end. -/
theorem exists_writes_of_writeAt (h : fs.writeAt t octets = .ok fs') :
    ∃ (parent : List Text) (last : Text) (dir : Entry) (name : Text) (permissions : Permissions),
      (Path.ofText t).parts = parent ++ [last] ∧ last ≠ ".." ∧
      fs.Writes (Path.ofText t) octets last fs' dir name permissions := by
  obtain ⟨-, -, named, -, isFile, written⟩ := writeAt_eq_ok_iff.mp h
  obtain ⟨parent, last, parts, forward⟩ := exists_parts_ofText named isFile
  obtain ⟨dir, name, permissions, writes⟩ := exists_writes parts forward written
  exact ⟨parent, last, dir, name, permissions, parts, forward, writes⟩

/-- What is written under a text is there afterwards. -/
theorem entry_of_writeAt (h : fs.writeAt t octets = .ok fs') : ∃ name content,
    fs'.entry (Path.ofText t) = .ok (.file name content) ∧ content.octets = octets ∧
      content.permissions.write := by
  obtain ⟨parent, last, dir, name, permissions, parts, forward, writes⟩ :=
    exists_writes_of_writeAt h
  exact ⟨name, _, writes.entry parts forward, rfl, writes.writable⟩

/-- What could be written once can be written again. -/
theorem exists_writeAt_again (h : fs.writeAt t octets = .ok fs') (more : List UInt8) :
    ∃ fs'', fs'.writeAt t more = .ok fs'' := by
  obtain ⟨checked, notEmpty, named, ⟨dir, found, passed⟩, isFile, -⟩ := writeAt_eq_ok_iff.mp h
  obtain ⟨_, _, _, _, _, -, -, writes⟩ := exists_writes_of_writeAt h
  obtain ⟨dir', found', alike⟩ := writes.exists_entry found
  obtain ⟨name, content, there, -, writable⟩ := entry_of_writeAt h
  obtain ⟨fs'', written⟩ : ∃ fs'', fs'.write (Path.ofText t) more = .ok fs'' := by
    rw [write, there]
    exact ⟨_, if_pos writable⟩
  exact ⟨fs'', writeAt_eq_ok_iff.mpr ⟨checked, notEmpty, named,
    ⟨dir', found', alike.pass_eq.mpr passed⟩, isFile, written⟩⟩

end FileSystem

end EnvReads
