import EnvReads.Path

/-!
# Paths and their texts

A path is spelled by its own text: nothing of it is lost when it is written and read again
(`Path.ofText_toText`), also if something is added to the text. A report shows a path relative to
its root; joined to the root, what it shows is the path (`Path.join_displayPath`). A normal path
leads back at its start only (`Path.forward_of_normalize_eq`).
-/

namespace EnvReads

/-! ## Texts with slashes -/

namespace Text

variable {sep : CodePoint}

/-- There is a first piece in every text that is split. -/
theorem splitOn_eq_cons (sep : CodePoint) (t : Text) :
    splitOn sep t = (splitOn sep t).headD [] :: (splitOn sep t).tail := by
  fun_cases splitOn sep t <;> rfl

/-- Text without the separator belongs to the first piece of what follows. -/
theorem splitOn_append {t : Text} (plain : sep ∉ t) (u : Text) :
    splitOn sep (t ++ u) = (t ++ (splitOn sep u).headD []) :: (splitOn sep u).tail := by
  induction t with
  | nil => exact splitOn_eq_cons sep u
  | cons c t ih =>
      rw [List.mem_cons, not_or] at plain
      rw [List.cons_append, splitOn, if_neg (Ne.symm plain.1), ih plain.2]
      rfl

/-- Text without the separator is one piece. -/
theorem splitOn_of_not_mem {t : Text} (plain : sep ∉ t) : splitOn sep t = [t] := by
  have split := splitOn_append plain []
  rwa [List.append_nil, splitOn, List.headD_cons, List.append_nil] at split

/-- The first separator ends the first piece. -/
theorem splitOn_append_cons {t : Text} (plain : sep ∉ t) (u : Text) :
    splitOn sep (t ++ sep :: u) = t :: splitOn sep u := by
  rw [splitOn_append plain, splitOn, if_pos rfl, List.headD_cons, List.append_nil, List.tail_cons]

/-- Text after joined pieces belongs to the last piece. -/
theorem joinWith_concat_append {sep : Text} (names : List Text) (last t : Text) :
    joinWith sep (names ++ [last]) ++ t = joinWith sep (names ++ [last ++ t]) := by
  by_cases first : names = []
  · rw [first]
    rfl
  · rw [joinWith_append first (List.cons_ne_nil last []),
      joinWith_append first (List.cons_ne_nil (last ++ t) []), List.append_assoc]
    rfl

/-- Joined pieces begin with the first piece. -/
theorem exists_joinWith_cons (sep t : Text) (ts : List Text) :
    ∃ u, joinWith sep (t :: ts) = t ++ u := by
  cases ts with
  | nil => exact ⟨[], (List.append_nil t).symm⟩
  | cons next rest => exact ⟨sep ++ joinWith sep (next :: rest), List.append_assoc ..⟩

/-- Leaving out pieces leaves out text. -/
theorem joinWith_sublist {sep : Text} {ts us : List Text} (less : ts.Sublist us) :
    (joinWith sep ts).Sublist (joinWith sep us) := by
  induction less with
  | slnil => exact .refl _
  | @cons ts us u less ih =>
      cases us with
      | nil =>
          cases List.sublist_nil.mp less
          exact List.nil_sublist _
      | cons next rest => exact ih.trans (List.sublist_append_right _ _)
  | @cons_cons ts us t less ih =>
      cases ts with
      | nil =>
          obtain ⟨u, joined⟩ := exists_joinWith_cons sep t us
          rw [joined]
          exact List.sublist_append_left _ _
      | cons first ts =>
          cases us with
          | nil => cases List.sublist_nil.mp less
          | cons next rest => exact ih.append_left _

end Text

namespace Path

/-! ## Components -/

theorem parts_ofText (t : Text) : (ofText t).parts = partsOf t := rfl

/-- A component spells itself. -/
theorem partsOf_of_isPart {t : Text} (h : IsPart t) : partsOf t = [t] := by
  rw [partsOf, Text.splitOn_of_not_mem h.whole,
    List.filter_cons_of_pos (by simp [h.nonempty, h.notDot]), List.filter_nil]

/-- A slash at the front spells no component. -/
theorem partsOf_slash (t : Text) : partsOf (CodePoint.slash :: t) = partsOf t := by
  rw [partsOf, Text.splitOn, if_pos rfl, List.filter_cons_of_neg (by simp), ← partsOf]

/-- An anchor spells no component. -/
theorem partsOf_anchor (anchor : Anchor) (t : Text) : partsOf (anchor.toText ++ t) = partsOf t := by
  cases anchor with
  | relative => rfl
  | root => exact partsOf_slash t
  | doubleRoot => exact (partsOf_slash _).trans (partsOf_slash t)

/-- Components before a text are read as they are, whatever the text spells. -/
theorem partsOf_joinWith {names : List Text} (h : ∀ part ∈ names, IsPart part) (t : Text) :
    partsOf (Text.joinWith "/" (names ++ [t])) = names ++ partsOf t := by
  induction names with
  | nil => rfl
  | cons name names ih =>
      obtain ⟨first, later⟩ := List.forall_mem_cons.mp h
      have joined : Text.joinWith "/" (name :: (names ++ [t])) =
          name ++ CodePoint.slash :: Text.joinWith "/" (names ++ [t]) := by
        have more : names ++ [t] ≠ [] :=
          List.append_ne_nil_of_right_ne_nil names (List.cons_ne_nil t [])
        exact (Text.joinWith_append (List.cons_ne_nil name []) more).trans (List.append_assoc ..)
      rw [List.cons_append, joined, partsOf, Text.splitOn_append_cons first.whole,
        List.filter_cons_of_pos (by simp [first.nonempty, first.notDot]), ← partsOf, ih later,
        List.cons_append]

/-- The anchor is read back if no slash follows it. -/
theorem anchor_ofText_append (anchor : Anchor) {t : Text} (h : t.head? ≠ some CodePoint.slash) :
    Anchor.ofText (anchor.toText ++ t) = anchor := by
  have first : t.takeWhile (· = CodePoint.slash) = [] := by
    cases t with
    | nil => rfl
    | cons c t => exact List.takeWhile_cons_of_neg (by simpa using h)
  have slashes : (anchor.toText ++ t).takeWhile (· = CodePoint.slash) = anchor.toText := by
    have slash : CodePoint.ofChar '/' = CodePoint.slash := rfl
    have all : ∀ c ∈ anchor.toText, decide (c = CodePoint.slash) = true := by
      cases anchor <;> simp [Anchor.toText, Text.ofString, slash]
    rw [List.takeWhile_append_of_pos all, first, List.append_nil]
  rw [Anchor.ofText, slashes]
  cases anchor <;> rfl

/-- No slash begins with a component. -/
theorem IsPart.head?_append {t : Text} (h : IsPart t) (u : Text) :
    (t ++ u).head? ≠ some CodePoint.slash := by
  cases t with
  | nil => exact absurd rfl h.nonempty
  | cons c t => exact fun slash => h.whole (Option.some.inj slash ▸ List.mem_cons_self)

/-- A component is a relative path by itself. -/
theorem ofText_of_isPart {t : Text} (h : IsPart t) :
    ofText t = ⟨.relative, [t], List.forall_mem_singleton.mpr h⟩ := by
  have anchor : Anchor.ofText t = .relative := by
    have first := h.head?_append []
    rw [List.append_nil] at first
    exact anchor_ofText_append .relative first
  exact Path.ext anchor (partsOf_of_isPart h)

/-! ## Paths below another -/

variable {p root q : Path} {names more : List Text} {name : Text}

/-- Names that can be components of a path. -/
def AreParts (names : List Text) : Prop :=
  ∀ name ∈ names, IsPart name

instance (names : List Text) : Decidable (AreParts names) :=
  inferInstanceAs (Decidable (∀ name ∈ names, IsPart name))

theorem areParts_cons_iff : AreParts (name :: names) ↔ IsPart name ∧ AreParts names :=
  List.forall_mem_cons

/-- Both of two lists of names can be components if all of them can. -/
theorem areParts_append_iff : AreParts (names ++ more) ↔ AreParts names ∧ AreParts more :=
  List.forall_mem_append

/-- The path that names lead to from another. -/
def below (p : Path) (names : List Text) : Path :=
  names.foldl child p

theorem below_nil (p : Path) : p.below [] = p := rfl

theorem below_child (p : Path) (name : Text) (names : List Text) :
    (p.child name).below names = p.below (name :: names) := rfl

/-- Names can be followed in two goes. -/
theorem below_append (p : Path) (names more : List Text) :
    (p.below names).below more = p.below (names ++ more) :=
  (List.foldl_append ..).symm

theorem child_eq_below (p : Path) (name : Text) : p.child name = p.below [name] := rfl

/-- A component is added at the end. -/
theorem child_eq (h : IsPart name) : p.child name = ⟨p.anchor, p.parts ++ [name],
    List.forall_mem_append.mpr ⟨p.spelled, List.forall_mem_singleton.mpr h⟩⟩ := by
  rw [child, ofText_of_isPart h]
  rfl

/-- Names are added to the components. -/
theorem below_eq (h : AreParts names) : p.below names =
    ⟨p.anchor, p.parts ++ names, List.forall_mem_append.mpr ⟨p.spelled, h⟩⟩ := by
  induction names generalizing p with
  | nil => exact Path.ext rfl (List.append_nil _).symm
  | cons name names ih =>
      obtain ⟨first, later⟩ := areParts_cons_iff.mp h
      rw [← below_child, ih later]
      refine Path.ext ?_ ?_
      · rw [child_eq first]
      · rw [child_eq first]
        exact List.append_assoc _ [name] names

/-- What is below a path has its anchor. -/
theorem anchor_below (h : AreParts names) : (p.below names).anchor = p.anchor := by
  rw [below_eq h]

/-- The components of what is below a path. -/
theorem parts_below (h : AreParts names) : (p.below names).parts = p.parts ++ names := by
  rw [below_eq h]

/-- A path with the anchor of another and further components is below it. -/
theorem eq_below (h : AreParts names) (anchor : q.anchor = p.anchor)
    (parts : q.parts = p.parts ++ names) : q = p.below names :=
  Path.ext (anchor.trans (anchor_below h).symm) (parts.trans (parts_below h).symm)

/-- What is below an absolute path is absolute, and conversely. -/
theorem isAbsolute_below (h : AreParts names) : (p.below names).isAbsolute = p.isAbsolute := by
  rw [isAbsolute, anchor_below h, isAbsolute]

/-- The components of a child. -/
theorem parts_child (h : IsPart name) : (p.child name).parts = p.parts ++ [name] := by
  rw [child_eq h]

/-- A relative path of names leads below the path that it is joined to. -/
theorem join_here_below (h : AreParts names) : p.join (here.below names) = p.below names := by
  have relative : (here.below names).isAbsolute = false := isAbsolute_below h
  rw [join, relative, if_neg Bool.false_ne_true]
  exact eq_below h rfl (congrArg (p.parts ++ ·) (parts_below h))

/-- Different names lead to different paths. -/
theorem below_inj (h : AreParts names) (h' : AreParts more) :
    p.below names = p.below more ↔ names = more := by
  constructor
  · intro same
    have parts := congrArg Path.parts same
    rw [parts_below h, parts_below h'] at parts
    exact List.append_cancel_left parts
  · rintro rfl
    rfl

/-- Only no names at all lead nowhere else. -/
theorem below_eq_self_iff (h : AreParts names) : p.below names = p ↔ names = [] :=
  below_inj h (List.forall_mem_nil _)

/-- Each of the shorter paths is below those that come after it. -/
theorem pairwise_ancestors (p : Path) :
    p.ancestors.Pairwise fun near far => ∃ names, AreParts names ∧ near = far.below names := by
  rw [ancestors, List.pairwise_map, List.pairwise_reverse]
  refine List.pairwise_lt_range.imp fun {m n} less => ?_
  have parts : AreParts ((p.parts.take n).drop m) := fun part mem =>
    p.spelled part (List.mem_of_mem_take (List.mem_of_mem_drop mem))
  refine ⟨(p.parts.take n).drop m, parts, eq_below parts rfl ?_⟩
  have taken : p.parts.take m = (p.parts.take n).take m := by
    rw [List.take_take, Nat.min_eq_left (Nat.le_of_lt less)]
  dsimp only
  rw [taken, List.take_append_drop]

/-- A path is below the shorter ones. -/
theorem exists_below_of_mem_ancestors (h : q ∈ p.ancestors) :
    ∃ names, AreParts names ∧ p = q.below names := by
  obtain ⟨n, -, rfl⟩ := List.mem_map.mp h
  have parts : AreParts (p.parts.drop n) := fun part mem =>
    p.spelled part (List.mem_of_mem_drop mem)
  exact ⟨p.parts.drop n, parts, eq_below parts rfl (List.take_append_drop n p.parts).symm⟩

/-- What can be seen from a path are the paths below it. -/
theorem relativeTo?_eq_some_iff : p.relativeTo? root = some q ↔
    ∃ names, AreParts names ∧ p = root.below names ∧ q = here.below names := by
  rw [relativeTo?]
  constructor
  · intro h
    split at h
    · next fits =>
        obtain ⟨same, start⟩ := fits
        obtain ⟨names, rest⟩ := List.isPrefixOf_iff_prefix.mp start
        have parts : AreParts names := fun part mem =>
          p.spelled part (rest ▸ List.mem_append_right _ mem)
        cases h
        refine ⟨names, parts, eq_below parts same rest.symm, eq_below parts rfl ?_⟩
        dsimp only
        rw [← rest, List.drop_left]
        rfl
    · cases h
  · rintro ⟨names, parts, rfl, rfl⟩
    have start : root.parts.isPrefixOf (root.below names).parts := by
      rw [parts_below parts]
      exact List.isPrefixOf_iff_prefix.mpr (List.prefix_append _ _)
    rw [if_pos ⟨anchor_below parts, start⟩]
    refine congrArg some (eq_below parts rfl ?_)
    dsimp only
    rw [parts_below parts, List.drop_left]
    rfl

/-! ## Paths and their texts -/

/-- The text of a path that has components. -/
theorem toText_of_parts_ne_nil (h : p.parts ≠ []) :
    p.toText = p.anchor.toText ++ Text.joinWith "/" p.parts := by
  obtain ⟨anchor, parts, spelled⟩ := p
  cases parts with
  | nil => exact absurd rfl h
  | cons => cases anchor <;> rfl

/-- What is read if something is added to the text of a path: it changes the last component, and may
add more. -/
theorem ofText_toText_append {last : Text} (named : p.parts = names ++ [last]) (t : Text) :
    (ofText (p.toText ++ t)).anchor = p.anchor ∧
      (ofText (p.toText ++ t)).parts = names ++ partsOf (last ++ t) := by
  obtain ⟨before, part⟩ := List.forall_mem_append.mp (named ▸ p.spelled)
  replace part := part last List.mem_cons_self
  have first : (Text.joinWith "/" (names ++ [last ++ t])).head? ≠ some CodePoint.slash := by
    cases names with
    | nil => exact part.head?_append t
    | cons name names =>
        obtain ⟨u, starts⟩ := Text.exists_joinWith_cons "/" name (names ++ [last ++ t])
        rw [List.cons_append, starts]
        exact (before name List.mem_cons_self).head?_append u
  have inner : p.parts ≠ [] := by simp [named]
  have shown : p.toText ++ t = p.anchor.toText ++ Text.joinWith "/" (names ++ [last ++ t]) := by
    rw [toText_of_parts_ne_nil inner, named, List.append_assoc, Text.joinWith_concat_append]
  rw [shown]
  refine ⟨anchor_ofText_append p.anchor first, ?_⟩
  rw [parts_ofText, partsOf_anchor, partsOf_joinWith before]

/-- A path is read back from its text. -/
theorem ofText_toText (p : Path) : ofText p.toText = p := by
  rcases List.eq_nil_or_concat p.parts with top | ⟨names, last, named⟩
  · obtain ⟨anchor, parts, spelled⟩ := p
    cases top
    cases anchor <;> rfl
  · rw [List.concat_eq_append] at named
    have part : IsPart last := p.spelled last (by simp [named])
    obtain ⟨anchor, parts⟩ := ofText_toText_append named []
    rw [List.append_nil] at anchor parts
    rw [List.append_nil, partsOf_of_isPart part] at parts
    exact Path.ext anchor (parts.trans named.symm)

/-- A path is found again from what a report shows of it, relative to the root or not. -/
theorem join_displayPath (absolute : p.isAbsolute) {shown : Option Path}
    (h : ∀ q, shown = some q → q = root) : root.join (ofText (displayPath shown p)) = p := by
  rw [displayPath]
  cases seen : shown.bind p.relativeTo? with
  | none =>
      dsimp only
      rw [ofText_toText, join, if_pos absolute]
  | some relative =>
      obtain ⟨q, same, seen⟩ := Option.bind_eq_some_iff.mp seen
      cases h q same
      obtain ⟨rest, parts, rfl, rfl⟩ := relativeTo?_eq_some_iff.mp seen
      dsimp only
      rw [ofText_toText, join_here_below parts]

/-! ## Normal paths -/

/-- Names that lead down only. -/
def IsForward (names : List Text) : Prop :=
  ∀ name ∈ names, name ≠ ".."

instance (names : List Text) : Decidable (IsForward names) :=
  inferInstanceAs (Decidable (∀ name ∈ names, name ≠ ".."))

section

variable {absolute : Bool} {kept parts : List Text}

/-- Names that lead down, one list after the other, lead down. -/
theorem IsForward.append (h : IsForward names) (h' : IsForward more) : IsForward (names ++ more) :=
  List.forall_mem_append.mpr ⟨h, h'⟩

/-- Names that lead down are all kept. -/
theorem foldl_keep_of_forward (forward : IsForward names) :
    names.foldl (keep absolute) kept = names.reverse ++ kept := by
  induction names generalizing kept with
  | nil => rfl
  | cons name names ih =>
      obtain ⟨first, later⟩ := List.forall_mem_cons.mp forward
      rw [List.foldl_cons, ih later, keep, if_neg first, List.reverse_cons, List.append_assoc]
      rfl

/-- From an absolute start no step leaves a `..` behind. -/
theorem IsForward.keep (h : IsForward kept) (part : Text) : IsForward (keep true kept part) := by
  rw [Path.keep]
  split
  · cases kept with
    | nil => exact List.forall_mem_nil _
    | cons last before =>
        obtain ⟨first, rest⟩ := List.forall_mem_cons.mp h
        rwa [stepBack, if_neg first]
  · next forward => exact List.forall_mem_cons.mpr ⟨forward, h⟩

/-- The normal form of an absolute way leads down only. -/
theorem isForward_normalizeParts (parts : List Text) : IsForward (normalizeParts true parts) := by
  have kept : ∀ kept, IsForward kept → IsForward (parts.foldl (Path.keep true) kept) := by
    induction parts with
    | nil => exact fun kept h => h
    | cons part parts ih => exact fun kept h => ih _ (h.keep part)
  exact fun name mem => kept [] (List.forall_mem_nil _) name (List.mem_reverse.mp mem)

/-- What is kept before a `..` is a `..` too, the last component first. -/
def BacksFirst (kept : List Text) : Prop :=
  kept.Pairwise fun later earlier : Text => later = ".." → earlier = ".."

/-- One step keeps each `..` before the names that lead down. -/
theorem BacksFirst.keep (h : BacksFirst kept) (part : Text) :
    BacksFirst (Path.keep absolute kept part) := by
  rw [Path.keep]
  split
  · cases kept with
    | nil =>
        rw [stepBack]
        split
        · exact .nil
        · exact List.pairwise_singleton _ _
    | cons last before =>
        obtain ⟨first, rest⟩ := List.pairwise_cons.mp h
        rw [stepBack]
        split
        · next stays =>
            refine List.pairwise_cons.mpr ⟨fun earlier mem _ => ?_, h⟩
            rcases List.mem_cons.mp mem with rfl | mem
            · exact stays
            · exact first earlier mem stays
        · exact rest
  · next forward => exact List.pairwise_cons.mpr ⟨fun _ _ back => absurd back forward, h⟩

/-- So do all steps. -/
theorem BacksFirst.foldl_keep (h : BacksFirst kept) :
    BacksFirst (parts.foldl (Path.keep absolute) kept) := by
  induction parts generalizing kept with
  | nil => exact h
  | cons part parts ih => exact ih (h.keep part)

end

variable {part : Text}

/-- The normal form of a path leaves out components and adds none. -/
theorem normalize_sublist (p : Path) : p.normalize.parts.Sublist p.parts :=
  normalizeParts_sublist p.isAbsolute p.parts

/-- Names that lead down stay at the end of the normal form. -/
theorem normalizeParts_append (absolute : Bool) (parts : List Text) (forward : IsForward names) :
    normalizeParts absolute (parts ++ names) = normalizeParts absolute parts ++ names := by
  rw [normalizeParts, List.foldl_append, foldl_keep_of_forward forward, List.reverse_append,
    List.reverse_reverse, normalizeParts]

/-- What is below a path is below its normal form, if the names lead down. -/
theorem normalize_below (parts : AreParts names) (forward : IsForward names) :
    (p.below names).normalize = p.normalize.below names := by
  refine eq_below parts (anchor_below parts) ?_
  dsimp only [normalize]
  rw [isAbsolute_below parts, parts_below parts, normalizeParts_append _ _ forward]

/-- A path that leads down only is normal. -/
theorem normalize_of_forward (forward : IsForward p.parts) : p.normalize = p := by
  refine Path.ext rfl ?_
  exact normalizeParts_append p.isAbsolute [] forward

/-- A normal path does not lead back once it has led down. -/
theorem forward_of_normalize_eq {q : Path} (h : q.normalize = p.below names)
    (parts : AreParts names) (mem : part ∈ p.parts) (down : part ≠ "..") : IsForward names := by
  have ordered : BacksFirst (p.parts ++ names).reverse := by
    rw [← parts_below parts, ← h]
    dsimp only [normalize, normalizeParts]
    rw [List.reverse_reverse]
    exact BacksFirst.foldl_keep .nil
  rw [BacksFirst, List.reverse_append, List.pairwise_append] at ordered
  intro name later back
  exact down (ordered.2.2 name (List.mem_reverse.mpr later) part (List.mem_reverse.mpr mem) back)

end Path

end EnvReads
