import EnvReads.Ignore.Pattern
import EnvReads.Proofs.Outcome
import EnvReads.Proofs.PieceMatching

/-!
# Patterns without brackets

A pattern without bracket expressions that matches a directory matches all below it
(`Pattern.isMatch_append`). Most pieces do not see where a path ends, so they match a longer path in
the same way. Only the last piece of a pattern does, where the pattern does not end with a slash; it
follows the pieces of a component (`Piece.Closes`). After the slash at the end of a directory they
can only have matched nothing, so all of them are stars, and these match the next name as well.
-/

namespace EnvReads

namespace Piece

variable {t r : Text} {i j : Nat} {piece : Piece} {ps : List Piece}

/-! ## Pieces in a component -/

def isSet : Piece → Bool
  | set _ => true
  | _ => false

/-- A piece of a component. It matches no slash, unless it is a set. -/
def InComponent : Piece → Prop
  | literal c => c ≠ CodePoint.slash
  | one | many | component | set _ => True
  | leading | between | stop => False

/-- A piece of a component leads over no slash. -/
theorem run_of_inComponent (inner : InComponent piece) (plain : ¬piece.isSet)
    (h : Leads t piece i j) : Run isNotSlash t i j := by
  cases piece with
  | literal c =>
      obtain ⟨eq, d, at_i, same⟩ := h
      obtain rfl := of_decide_eq_true same
      exact Next.run ⟨eq, d, at_i, bne_iff_ne.mpr inner⟩
  | one => exact Next.run h
  | many => exact h
  | component => exact h.2
  | set s => exact absurd rfl plain
  | leading => cases inner
  | between => cases inner
  | stop => cases inner

/-- Neither do several of them. -/
theorem run_of_inComponents (inner : ∀ piece ∈ ps, InComponent piece)
    (plain : ∀ piece ∈ ps, ¬piece.isSet) (inside : j ≤ t.length) (h : LeadsAll t ps i j) :
    Run isNotSlash t i j := by
  induction ps generalizing i with
  | nil =>
      cases h
      exact .refl inside
  | cons piece ps ih =>
      obtain ⟨k, first, rest⟩ := h
      obtain ⟨innerFirst, innerRest⟩ := List.forall_mem_cons.mp inner
      obtain ⟨plainFirst, plainRest⟩ := List.forall_mem_cons.mp plain
      exact (run_of_inComponent innerFirst plainFirst first).trans (ih innerRest plainRest rest)

/-- Only a star matches nothing. -/
theorem eq_many_of_leads_self (inner : InComponent piece) (h : Leads t piece i i) :
    piece = many := by
  have different : ∀ {p}, ¬Next p t i i := fun next =>
    absurd next.1 (Nat.ne_of_lt (Nat.lt_succ_self i))
  cases piece with
  | literal c => exact absurd h different
  | one => exact absurd h different
  | many => rfl
  | component => exact absurd h.1 (Nat.lt_irrefl i)
  | set s => exact absurd h different
  | leading => cases inner
  | between => cases inner
  | stop => cases inner

/-- Only stars match nothing. -/
theorem eq_many_of_leadsAll_self (inner : ∀ piece ∈ ps, InComponent piece)
    (plain : ∀ piece ∈ ps, ¬piece.isSet) (inside : i ≤ t.length) (h : LeadsAll t ps i i) :
    ∀ piece ∈ ps, piece = many := by
  induction ps with
  | nil => exact fun piece member => absurd member List.not_mem_nil
  | cons piece ps ih =>
      obtain ⟨k, first, rest⟩ := h
      obtain ⟨innerFirst, innerRest⟩ := List.forall_mem_cons.mp inner
      obtain ⟨plainFirst, plainRest⟩ := List.forall_mem_cons.mp plain
      have forth := (run_of_inComponent innerFirst plainFirst first).le
      have back := (run_of_inComponents innerRest plainRest inside rest).le
      obtain rfl := Nat.le_antisymm forth back
      exact List.forall_mem_cons.mpr
        ⟨eq_many_of_leads_self innerFirst first, ih innerRest plainRest rest⟩

/-- Stars can match nothing. -/
theorem leadsAll_many_self (stars : ∀ piece ∈ ps, piece = many) (inside : i ≤ t.length) :
    LeadsAll t ps i i := by
  induction ps with
  | nil => rfl
  | cons piece ps ih =>
      obtain ⟨rfl, rest⟩ := List.forall_mem_cons.mp stars
      exact ⟨i, .refl inside, ih rest⟩

/-- Stars match what one star matches. -/
theorem leadsAll_many (stars : ∀ piece ∈ ps, piece = many) (nonempty : ps ≠ [])
    (run : Run isNotSlash t i j) : LeadsAll t ps i j := by
  match ps, nonempty with
  | piece :: ps, _ =>
      obtain ⟨rfl, rest⟩ := List.forall_mem_cons.mp stars
      exact ⟨j, run, leadsAll_many_self rest run.inside⟩

/-! ## Ends of patterns -/

/-- Pieces that end with a slash, or with those of a component and a stop. -/
inductive Closes : List Piece → Prop
  | slash (front : List Piece) (inner : ∀ piece ∈ front, piece ≠ stop) :
      Closes (front ++ [literal CodePoint.slash])
  | component {front segment : List Piece} (inner : ∀ piece ∈ front, piece ≠ stop)
      (nonempty : segment ≠ []) (within : ∀ piece ∈ segment, InComponent piece) :
      Closes (front ++ (segment ++ [stop]))

theorem InComponent.ne_stop (inner : InComponent piece) : piece ≠ stop := by
  rintro rfl
  exact inner

/-- A path that is empty or ends with a slash, as those of directories do. -/
def EndsOpen (t : Text) : Prop :=
  ∀ c, t.getLast? = some c → c = CodePoint.slash

/-- The last code point of such a path is a slash. -/
theorem EndsOpen.eq_slash (ends : EndsOpen t) {c : CodePoint} (last : i + 1 = t.length)
    (at_i : t[i]? = some c) : c = CodePoint.slash := by
  refine ends c ?_
  rw [List.getLast?_eq_getElem?, ← last]
  exact at_i

/-- No line feed is left over at the end of a directory. -/
theorem EndsOpen.eq_length (ends : EndsOpen t) (final : Final t i) : i = t.length := by
  rcases final with eq | ⟨last, at_i⟩
  · exact eq
  · exact absurd (ends.eq_slash last at_i) (by decide)

/-- In a component nothing but the empty text is matched at the end of a directory. -/
theorem EndsOpen.eq_of_run (ends : EndsOpen t) (run : Run isNotSlash t i t.length) :
    i = t.length := by
  refine Nat.le_antisymm run.le (Nat.not_lt.mp fun less => ?_)
  obtain ⟨last, eq⟩ : ∃ last, last + 1 = t.length := ⟨t.length - 1, by omega⟩
  have at_last := List.getElem?_eq_getElem (show last < t.length by omega)
  have other := run.all last _ (by omega) (by omega) at_last
  rw [ends.eq_slash eq at_last] at other
  cases other

/-- After stars that have matched nothing at the end of a path, a longer path can go on to the end
of the next component. -/
theorem exists_leadsAll_many_stop (stars : ∀ piece ∈ ps, piece = many) (nonempty : ps ≠ [])
    (inside : i ≤ t.length) : ∃ j, LeadsAll t (ps ++ [stop]) i j := by
  obtain ⟨j, run, longest⟩ := exists_longest_run (p := isNotSlash) inside
  have before := leadsAll_many stars nonempty run
  by_cases more : j < t.length
  · have at_j := List.getElem?_eq_getElem more
    have slash : isSlash t[j] := by
      have := longest _ at_j
      simpa [isNotSlash, isSlash] using this
    exact ⟨j + 1, leadsAll_append.mpr
      ⟨j, before, leadsAll_singleton.mpr (.inl ⟨rfl, _, at_j, slash⟩)⟩⟩
  · have final : j = t.length := Nat.le_antisymm run.inside (Nat.not_lt.mp more)
    exact ⟨j, leadsAll_append.mpr ⟨j, before, leadsAll_singleton.mpr (.inr ⟨rfl, .inl final⟩)⟩⟩

/-- Pieces without sets that match a directory match what is below it. -/
theorem matchAll_append (closes : Closes ps) (plain : ∀ piece ∈ ps, ¬piece.isSet)
    (ends : EndsOpen t) (h : matchAll ps t) : matchAll ps (t ++ r) := by
  rw [matchAll_iff] at h ⊢
  obtain ⟨j, leads⟩ := h
  cases closes with
  | slash front inner =>
      refine ⟨j, leads.append ?_⟩
      intro piece member
      rcases List.mem_append.mp member with before | last
      · exact inner piece before
      · cases List.mem_singleton.mp last
        nofun
  | @component front segment inner nonempty within =>
      obtain ⟨k, before, rest⟩ := leadsAll_append.mp leads
      obtain ⟨m, during, stops⟩ := leadsAll_append.mp rest
      have outer : ∀ piece ∈ segment, piece ≠ stop := fun piece member =>
        (within piece member).ne_stop
      rcases leadsAll_singleton.mp stops with next | ⟨rfl, final⟩
      · refine ⟨j, leadsAll_append.mpr ⟨k, before.append inner, leadsAll_append.mpr ⟨m, ?_, ?_⟩⟩⟩
        · exact during.append outer
        · exact leadsAll_singleton.mpr (.inl next.append)
      · -- The stop has seen the end, so the component before it matches nothing there.
        obtain rfl := ends.eq_length final
        have bare : ∀ piece ∈ segment, ¬piece.isSet := fun piece member =>
          plain piece (List.mem_append_right _ (List.mem_append_left _ member))
        obtain rfl := ends.eq_of_run (run_of_inComponents within bare (Nat.le_refl _) during)
        have stars := eq_many_of_leadsAll_self within bare (Nat.le_refl _) during
        obtain ⟨j, after⟩ := exists_leadsAll_many_stop (t := t ++ r) (i := t.length) stars nonempty
          (by simp)
        exact ⟨j, leadsAll_append.mpr ⟨_, before.append inner, after⟩⟩

end Piece

namespace Glob

open Piece (InComponent)

theorem takeFirst_suffix (p : CodePoint → Bool) (t : Text) : (takeFirst p t).2 <:+ t := by
  cases t with
  | nil => exact List.suffix_refl _
  | cons c rest =>
      rw [takeFirst]
      split
      · exact List.suffix_cons _ _
      · exact List.suffix_refl _

/-- What follows a bracket expression is an end of the text. -/
theorem set?_suffix {t after : Text} {s : CharSet} (h : set? t = some (s, after)) :
    after <:+ t := by
  obtain ⟨⟨members, rest⟩, found, eq⟩ := Option.map_eq_some_iff.mp h
  cases eq
  refine List.IsSuffix.trans ?_ (takeFirst_suffix isNegation t)
  simp only [members?] at found
  split at found
  · cases found
  · next closed =>
      cases found
      refine List.IsSuffix.trans ?_ (takeFirst_suffix isClosing _)
      refine List.IsSuffix.trans ?_ (List.dropWhile_suffix (!isClosing ·))
      rw [closed]
      exact List.suffix_cons _ _

/-- The pieces of a component are read from a text without slashes. -/
theorem inComponent_of_read {segment : Text} {ps : List Piece} (plain : CodePoint.slash ∉ segment)
    (h : read segment = .ok ps) : ∀ piece ∈ ps, InComponent piece := by
  fun_induction read segment generalizing ps with
  | case1 =>
      cases h
      exact fun piece member => absurd member List.not_mem_nil
  | case2 => cases h
  | case3 d more ih =>
      obtain ⟨qs, rest, rfl⟩ := Except.map_eq_ok_iff.mp h
      simp only [List.mem_cons, not_or] at plain
      exact List.forall_mem_cons.mpr ⟨Ne.symm plain.2.1, ih plain.2.2 rest⟩
  | case4 rest _ ih =>
      obtain ⟨qs, rest, rfl⟩ := Except.map_eq_ok_iff.mp h
      exact List.forall_mem_cons.mpr ⟨trivial, ih (fun member => plain (.tail _ member)) rest⟩
  | case5 rest _ _ ih =>
      obtain ⟨qs, rest, rfl⟩ := Except.map_eq_ok_iff.mp h
      exact List.forall_mem_cons.mpr ⟨trivial, ih (fun member => plain (.tail _ member)) rest⟩
  | case6 => cases h
  | case7 rest s after found _ _ _ ih =>
      obtain ⟨qs, rest, rfl⟩ := Except.map_eq_ok_iff.mp h
      refine List.forall_mem_cons.mpr ⟨trivial, ih (fun member => plain (.tail _ ?_)) rest⟩
      exact (set?_suffix found).subset member
  | case8 c rest _ _ _ _ ih =>
      obtain ⟨qs, rest, rfl⟩ := Except.map_eq_ok_iff.mp h
      simp only [List.mem_cons, not_or] at plain
      exact List.forall_mem_cons.mpr ⟨Ne.symm plain.1, ih plain.2 rest⟩

/-- A segment that is not empty has pieces. -/
theorem ne_nil_of_read {segment : Text} {ps : List Piece} (nonempty : segment ≠ [])
    (h : read segment = .ok ps) : ps ≠ [] := by
  fun_induction read segment with
  | case1 => exact absurd rfl nonempty
  | case2 => cases h
  | case6 => cases h
  | _ =>
      obtain ⟨qs, -, rfl⟩ := Except.map_eq_ok_iff.mp h
      exact List.cons_ne_nil _ _

end Glob

namespace Pattern

open Piece (Closes InComponent)

variable {segments : List Text} {ps : List Piece}

/-! ## Pieces of patterns that are read -/

/-- More pieces in front do not change how a pattern ends. -/
theorem closes_append (front : List Piece) (inner : ∀ piece ∈ front, piece ≠ .stop)
    (h : Closes ps) : Closes (front ++ ps) := by
  cases h with
  | slash _ rest =>
      rw [← List.append_assoc]
      exact .slash _ (List.forall_mem_append.mpr ⟨inner, rest⟩)
  | component rest more within =>
      rw [← List.append_assoc]
      exact .component (List.forall_mem_append.mpr ⟨inner, rest⟩) more within

/-- The pieces of a segment without a slash are pieces of a component. -/
theorem inComponent_of_componentPieces {segment : Text} (plain : CodePoint.slash ∉ segment)
    (h : componentPieces segment = .ok ps) : ∀ piece ∈ ps, InComponent piece := by
  rw [componentPieces] at h
  split at h
  · cases h
    exact List.forall_mem_singleton.mpr trivial
  · exact Glob.inComponent_of_read plain h

theorem ne_nil_of_componentPieces {segment : Text} (more : segment ≠ [])
    (h : componentPieces segment = .ok ps) : ps ≠ [] := by
  rw [componentPieces] at h
  split at h
  · cases h
    exact List.cons_ne_nil _ _
  · exact Glob.ne_nil_of_read more h

/-- Segments end with a slash or with a stop, if the last one is not empty. -/
theorem closes_of_piecesFrom {joined : Bool} (more : segments ≠ [])
    (plain : ∀ segment ∈ segments, CodePoint.slash ∉ segment)
    (last : segments.getLast? ≠ some []) (h : piecesFrom joined segments = .ok ps) : Closes ps := by
  induction segments generalizing joined ps with
  | nil => exact absurd rfl more
  | cons segment rest ih =>
      obtain ⟨plainHere, plainRest⟩ := List.forall_mem_cons.mp plain
      rw [piecesFrom] at h
      have before : ∀ piece ∈ (if joined then [Piece.literal CodePoint.slash] else []),
          piece ≠ .stop := by
        split <;> simp
      cases rest with
      | nil =>
          split at h
          · cases h
            exact .slash [] nofun
          · obtain ⟨here, read, h⟩ := Except.bind_eq_ok_iff.mp h
            obtain ⟨qs, empty, h⟩ := Except.bind_eq_ok_iff.mp h
            rw [piecesFrom] at empty
            cases empty
            cases h
            rw [List.append_nil, List.append_assoc]
            refine .component before (ne_nil_of_componentPieces ?_ read)
              (inComponent_of_componentPieces plainHere read)
            rintro rfl
            exact last rfl
      | cons next rest =>
          have last : (next :: rest).getLast? ≠ some [] := by
            rwa [List.getLast?_cons_cons] at last
          split at h
          · obtain ⟨qs, read, rfl⟩ := Except.map_eq_ok_iff.mp h
            exact closes_append [.between] (by simp)
              (ih (List.cons_ne_nil _ _) plainRest last read)
          · obtain ⟨here, read, h⟩ := Except.bind_eq_ok_iff.mp h
            obtain ⟨qs, readRest, h⟩ := Except.bind_eq_ok_iff.mp h
            cases h
            have inner : ∀ piece ∈ here, piece ≠ .stop := fun piece member =>
              (inComponent_of_componentPieces plainHere read piece member).ne_stop
            rw [List.isEmpty_cons, if_neg Bool.false_ne_true, List.append_nil]
            exact closes_append _ (List.forall_mem_append.mpr ⟨before, inner⟩)
              (ih (List.cons_ne_nil _ _) plainRest last readRest)

/-- So do the pieces of a whole pattern, if it is not `**` alone. -/
theorem closes_of_pieces (more : segments ≠ []) (other : segments ≠ [anyDirectories])
    (plain : ∀ segment ∈ segments, CodePoint.slash ∉ segment)
    (last : segments.getLast? ≠ some []) (h : pieces segments = .ok ps) : Closes ps := by
  rw [pieces.eq_def] at h
  split at h
  · exact absurd rfl more
  · next first rest =>
      split at h
      · next leading =>
          obtain ⟨qs, read, rfl⟩ := Except.map_eq_ok_iff.mp h
          have rest_ne : rest ≠ [] := by
            rintro rfl
            exact other (by rw [leading])
          refine closes_append [.leading] (by simp) (closes_of_piecesFrom rest_ne
            (List.forall_mem_cons.mp plain).2 ?_ read)
          rwa [List.getLast?_cons_of_ne_nil rest_ne] at last
      · exact closes_of_piecesFrom more plain last h

/-! ## Components of a pattern -/

/-- Leaving out repeated `**` adds no segment. -/
theorem mem_of_mem_collapse {segment : Text} (member : segment ∈ collapse segments) :
    segment ∈ segments := by
  fun_induction collapse segments with
  | case1 => exact member
  | case2 first rest last ih =>
      rw [last] at ih
      cases List.mem_singleton.mp member
      exact .head _
  | case3 first rest next more eq both ih =>
      rw [eq] at ih
      exact .tail _ (ih member)
  | case4 first rest next more eq _ ih =>
      rw [eq] at ih
      rcases List.mem_cons.mp member with rfl | later
      · exact .head _
      · exact .tail _ (ih later)

/-- It leaves the last segment as it is. -/
theorem getLast?_collapse (segments : List Text) :
    (collapse segments).getLast? = segments.getLast? := by
  fun_induction collapse segments with
  | case1 => rfl
  | case2 first rest last ih =>
      rw [last] at ih
      rw [List.getLast?_cons (l := rest), ← ih]
      rfl
  | case3 first rest next more eq both ih =>
      rw [List.getLast?_cons (l := rest), ← ih, eq, List.getLast?_cons]
      rfl
  | case4 first rest next more eq _ ih =>
      rw [List.getLast?_cons_cons, List.getLast?_cons (l := rest), ← ih, eq, List.getLast?_cons]
      rfl

/-- No pattern ends with an empty component. -/
theorem getLast?_components_ne (segments : List Text) :
    (components segments).getLast? ≠ some [] := by
  simp only [components]
  split
  · rw [List.getLast?_concat]
    decide
  · next other => exact fun last => other last

/-- Closing a pattern adds `**` only. -/
theorem mem_closed {tied : List Text} {segment : Text}
    (member : segment ∈ (match tied.getLast? with
      | some [] => tied.dropLast ++ [anyDirectories]
      | _ => tied)) : segment ∈ tied ∨ segment = anyDirectories := by
  split at member
  · rcases List.mem_append.mp member with before | last
    · exact .inl (List.dropLast_subset _ before)
    · exact .inr (List.mem_singleton.mp last)
  · exact .inl member

/-- The components are segments of the pattern or `**`. -/
theorem mem_components {segment : Text} (member : segment ∈ components segments) :
    segment ∈ segments ∨ segment = anyDirectories := by
  rw [components.eq_def] at member
  rcases mem_closed member with member | eq
  · split at member
    · cases member
    · split at member
      · exact .inl (.tail _ member)
      · split at member
        · rcases List.mem_cons.mp member with eq | later
          · exact .inr eq
          · exact .inl later
        · exact .inl member
  · exact .inr eq

/-- A pattern with a bracket expression. -/
def hasSet (pattern : Pattern) : Bool :=
  match pattern.shape with
  | .pieces ps => ps.any Piece.isSet
  | _ => false

theorem closes_of_shape? {forDirectories : Bool} (more : segments ≠ [])
    (plain : ∀ segment ∈ segments, CodePoint.slash ∉ segment)
    (last : segments.getLast? ≠ some [])
    (h : shape? forDirectories segments = .ok (some (.pieces ps))) : Closes ps := by
  rw [shape?] at h
  split at h
  · split at h <;> cases h
  · next other =>
      split at h
      · cases h
      · split at h
        · cases h
        · split at h
          · cases h
          · cases h
          · next read =>
              split at h
              · cases h
              · cases h
                exact closes_of_pieces more other plain last read

theorem collapse_ne_nil (more : segments ≠ []) : collapse segments ≠ [] := by
  intro empty
  have last := getLast?_collapse segments
  rw [empty, List.getLast?_nil] at last
  exact more (List.getLast?_eq_none_iff.mp last.symm)

/-- A pattern that is read ends with a slash or with a stop. -/
theorem closes_of_read? {line : Text} {pattern : Pattern} (h : read? line = .ok (some pattern))
    (shape : pattern.shape = .pieces ps) : Closes ps := by
  simp only [read?] at h
  split at h
  · cases h
  · split at h
    · cases h
    · next more =>
        obtain ⟨found?, found, eq⟩ := Except.map_eq_ok_iff.mp h
        obtain ⟨_, rfl, rfl⟩ := Option.map_eq_some_iff.mp eq
        cases shape
        refine closes_of_shape? (collapse_ne_nil more) (fun segment member => ?_) ?_ found
        · rcases mem_components (mem_of_mem_collapse member) with split | rfl
          · exact Text.not_mem_of_mem_splitOn split
          · decide
        · rw [getLast?_collapse]
          exact getLast?_components_ne _

/-- A pattern without bracket expressions that matches a directory matches all below it. -/
theorem isMatch_append {line t r : Text} {pattern : Pattern}
    (h : read? line = .ok (some pattern)) (plain : ¬pattern.hasSet) (ends : Piece.EndsOpen t)
    (found : pattern.isMatch t) : pattern.isMatch (t ++ r) := by
  rw [isMatch] at found ⊢
  cases shape : pattern.shape with
  | pieces ps =>
      rw [shape] at found
      have closes := closes_of_read? h shape
      refine Piece.matchAll_append closes (fun piece member isSet => ?_) ends found
      rw [hasSet, shape] at plain
      exact plain (List.any_eq_true.mpr ⟨piece, member, isSet⟩)
  | anything =>
      rw [shape] at found
      simp only [List.any_append, Bool.or_eq_true]
      exact .inl found
  | anyBelow =>
      rw [shape] at found
      simp only [List.contains_append, Bool.or_eq_true]
      exact .inl found

end Pattern

end EnvReads
