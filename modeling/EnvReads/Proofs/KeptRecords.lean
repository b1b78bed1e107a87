import EnvReads.Proofs.RankedSort
import EnvReads.Proofs.ScanDecomposition

/-!
# Which records a report keeps

Aggregation keeps the first record of each identity and sorts them. A name and a computed path with
the same text are one identity. So of all records about a text exactly one is kept, the first one
(`Record.filter_aggregate`), and a name is kept exactly if no computed path of the same text comes
before all records with that name (`Record.aggregate_keeps_name_iff`).
-/

namespace EnvReads

namespace Record

/-- The text of what a record is about; the empty one if that is no text. -/
def subject (r : Record) : Text :=
  r.identity.value.text?.getD []

/-- The record is about the text, as a name or as a computed path. -/
def isAbout (t : Text) (r : Record) : Bool :=
  r.identity.value.text? = some t

/-- The record has the text as its name. -/
def isNamed (t : Text) (r : Record) : Bool :=
  r.identity.name?.bind Value.text? = some t

/-- The record has the text as its computed path. -/
def isComputed (t : Text) (r : Record) : Bool :=
  r.identity.computed?.bind Value.text? = some t

/-- A record is about a text that is its name or its computed key. -/
theorem isAbout_eq (t : Text) (r : Record) : r.isAbout t = (r.isNamed t || r.isComputed t) := by
  rw [isAbout, isNamed, isComputed]
  cases r.identity with
  | name v => exact (Bool.or_false _).symm
  | computed v => exact (Bool.false_or _).symm

theorem isAbout_subject {r : Record} (h : r.identity.value.text?.isSome) : r.isAbout r.subject := by
  obtain ⟨t, text⟩ := Option.isSome_iff_exists.mp h
  simp [isAbout, subject, text]

/-- Of the records about a text the first one is kept, unless the text has been seen already. -/
theorem filter_firstOfEach (seen : List Value) (records : List Record) (t : Text) :
    (firstOfEach seen records).filter (isAbout t) =
      if seen.contains (.text t) then [] else (records.find? (isAbout t)).toList := by
  induction records generalizing seen with
  | nil => simp [firstOfEach]
  | cons r rest ih =>
      rw [firstOfEach]
      by_cases about : r.isAbout t
      · have value : r.identity.value = .text t := Value.eq_text_of_text? (of_decide_eq_true about)
        rw [value, List.find?_cons_of_pos about]
        by_cases known : seen.contains (.text t)
        · rw [if_pos known, ih, if_pos known, if_pos known]
        · have now : (Value.text t :: seen).contains (.text t) := by
            rw [List.contains_cons, Value.beq_text_eq]
            simp [Value.text?]
          rw [if_neg known, if_neg known, List.filter_cons_of_pos about, ih, if_pos now]
          rfl
      · rw [List.find?_cons_of_neg about]
        split
        · exact ih seen
        · have same : (r.identity.value :: seen).contains (.text t) = seen.contains (.text t) := by
            rw [List.contains_cons, Value.text_beq_eq]
            change (r.isAbout t || _) = _
            rw [Bool.eq_false_iff.mpr about, Bool.false_or]
          rw [List.filter_cons_of_neg about, ih, same]

/-- The kept records are the first ones of each identity, in some order. -/
theorem perm_of_aggregate {records kept : List Record} (h : aggregate records = .ok kept) :
    kept.Perm (firstOfEach [] records) := by
  rw [aggregate] at h
  split at h
  · split at h
    · next found =>
        cases h
        exact Value.sortOn?_perm found
    · cases h
  · cases h

/-- Of the records about a text a report has the first one and no other. -/
theorem filter_aggregate {records kept : List Record} (h : aggregate records = .ok kept)
    (t : Text) :
    kept.filter (isAbout t) = (records.find? (isAbout t)).toList := by
  have same := (perm_of_aggregate h).filter (isAbout t)
  rw [filter_firstOfEach] at same
  cases first : records.find? (isAbout t) with
  | none =>
      rw [first] at same
      exact List.perm_nil.mp same
  | some r =>
      rw [first] at same
      exact List.perm_singleton.mp same

/-- Records about texts can be sorted, and are sorted by these. -/
theorem aggregate_of_texts {records : List Record}
    (texts : ∀ r ∈ records, r.identity.value.text?.isSome) :
    aggregate records = .ok (rankSort subject (firstOfEach [] records)) := by
  have value : ∀ r ∈ records, r.identity.value = .text r.subject := by
    intro r mem
    exact Value.eq_text_of_text? (of_decide_eq_true (isAbout_subject (texts r mem)))
  have simple : records.all (·.identity.value.isSimple) := by
    rw [List.all_eq_true]
    intro r mem
    rw [value r mem]
    rfl
  have value' : ∀ r ∈ firstOfEach [] records, r.identity.value = .text r.subject :=
    fun r mem => value r (mem_of_mem_firstOfEach mem)
  have sorted : Value.sortOn? (·.identity.value) (firstOfEach [] records) =
      some (rankSort subject (firstOfEach [] records)) := by
    refine Value.sortOn?_eq_rankSort ?_ ?_
    · intro a mem b mem'
      rw [value' a mem, value' b mem', Value.less?_text]
      congr
    · intro a mem
      rw [value' a mem]
      rfl
  rw [aggregate, if_pos simple, sorted]

/-- A text that names a record before which it is no computed path names the first record about
it. -/
theorem isNamed_of_find? {records : List Record} {t : Text} {first : Record}
    (found : records.find? (isAbout t) = some first)
    (h : ∃ before r after, records = before ++ r :: after ∧ r.isNamed t ∧
      ∀ x ∈ before, ¬x.isComputed t) : first.isNamed t := by
  obtain ⟨before, r, after, rfl, named, earlier⟩ := h
  rw [List.find?_append] at found
  cases ahead : before.find? (isAbout t) with
  | some x =>
      rw [ahead] at found
      cases found
      have about := List.find?_some ahead
      rw [isAbout_eq, Bool.or_eq_true] at about
      exact about.resolve_right (earlier first (List.mem_of_find?_eq_some ahead))
  | none =>
      have about : r.isAbout t := by rw [isAbout_eq, named, Bool.true_or]
      rw [ahead, Option.none_or, List.find?_cons_of_pos about] at found
      cases found
      exact named

/-- A list of records about texts has a report. Each text that is a name in the list is what exactly
one record of the report is about; that record has it as its name exactly if the list has a record
of that name before which the text is not a computed path. -/
theorem aggregate_keeps_name_iff (records : List Record) :
    ((∀ r ∈ records, r.identity.value.text?.isSome) → (aggregate records).isOk) ∧
      ∀ kept, aggregate records = .ok kept → ∀ t, (∃ r ∈ records, r.isNamed t) →
        kept.countP (isAbout t) = 1 ∧
        (kept.countP (isNamed t) = 1 ↔ ∃ before r after, records = before ++ r :: after ∧
          r.isNamed t ∧ ∀ x ∈ before, ¬x.isComputed t) := by
  constructor
  · intro texts
    rw [aggregate_of_texts texts]
    rfl
  · rintro kept aggregated t ⟨r, inside, named⟩
    have only := filter_aggregate aggregated t
    cases found : records.find? (isAbout t) with
    | none =>
        have about := List.find?_eq_none.mp found r inside
        rw [isAbout_eq, named] at about
        cases about rfl
    | some first =>
        rw [found] at only
        have names : kept.countP (isNamed t) = [first].countP (isNamed t) := by
          rw [← Option.toList_some, ← only, List.countP_filter]
          refine List.countP_congr ?_
          intro x _
          rw [isAbout_eq, Bool.and_or_distrib_left, Bool.and_self, Bool.or_eq_true,
            Bool.and_eq_true]
          exact ⟨.inl, fun h => h.elim id And.left⟩
        refine ⟨by rw [List.countP_eq_length_filter, only]; rfl, ?_⟩
        rw [names, List.countP_singleton]
        constructor
        · intro one
          obtain ⟨-, before, after, rfl, earlier⟩ := List.find?_eq_some_iff_append.mp found
          refine ⟨before, first, after, rfl, by_contra fun other => ?_, ?_⟩
          · rw [if_neg other] at one
            cases one
          · intro x mem computed
            have about := earlier x mem
            simp [isAbout_eq, computed] at about
        · intro h
          rw [if_pos (isNamed_of_find? found h)]

end Record

namespace Sample

/-- The record of `process.env.HOME`. -/
def homeNamed : Record :=
  ⟨"/main.js", none, .name (.text "HOME"), [], []⟩

/-- The record of `process.env[HOME]`. -/
def homeComputed : Record :=
  ⟨"/main.js", none, .computed (.text "HOME"), [], []⟩

theorem home_lost : ∃ kept, Record.aggregate [homeComputed, homeNamed] = .ok kept ∧
    kept.countP (Record.isNamed "HOME") = 0 := by
  have computed : (Record.aggregate [homeComputed, homeNamed]).toOption.any
      (·.countP (Record.isNamed "HOME") = 0) := by
    decide +kernel
  simpa only [Option.any_eq_true, Except.toOption_eq_some_iff, decide_eq_true_eq] using computed

end Sample

namespace Record

open Sample in
/-- The computed path comes first here, and the report has no record of the name. -/
theorem aggregate_keeps_name_iff_home :
    (aggregate [homeComputed, homeNamed]).isOk ∧
      ¬∃ before r after, [homeComputed, homeNamed] = before ++ r :: after ∧ r.isNamed "HOME" ∧
        ∀ x ∈ before, ¬x.isComputed "HOME" := by
  obtain ⟨ends, keeps⟩ := aggregate_keeps_name_iff [homeComputed, homeNamed]
  obtain ⟨kept, aggregated, lost⟩ := home_lost
  refine ⟨ends (by decide), ?_⟩
  rw [← (keeps kept aggregated "HOME" ⟨homeNamed, by simp, by decide⟩).2, lost]
  decide

/-- A name can be lost to a computed path of the same text. -/
theorem not_always_keeps_name :
    ¬∀ (records kept : List Record) (t : Text), aggregate records = .ok kept →
      (∃ r ∈ records, r.isNamed t) → kept.countP (isNamed t) = 1 := by
  intro always
  obtain ⟨kept, aggregated, lost⟩ := Sample.home_lost
  have one := always _ kept "HOME" aggregated ⟨Sample.homeNamed, by simp, by decide⟩
  rw [lost] at one
  cases one

end Record

end EnvReads
