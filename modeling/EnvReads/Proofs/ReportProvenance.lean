import EnvReads.Proofs.GatheredReads
import EnvReads.Proofs.KeptRecords

/-!
# Where the records of a report come from

A scan goes through its paths in order and makes a record of each read. `ScanConfig.Scans` is the
account of it: for each path, the reads of its file in the order in which their records are made,
each with the number under which it was gathered. The report has one record of each identity that
occurs in the account, in the order of the identities, and it is the first one: it comes from the
first path that has any, and of the reads of that file from the one that stands first
(`ScanConfig.report_has_first_of_each`).
-/

namespace EnvReads

/-- A read with the number under which it was gathered, and its record. -/
structure Finding where
  read : Candidate
  index : Nat
  record : Record

namespace Finding

def numbered (e : Finding) : Candidate × Nat :=
  (e.read, e.index)

/-- Findings with the numbers of what was gathered have the reads that were gathered. -/
theorem read_perm {findings : List Finding} {gathered : List Candidate}
    (h : (findings.map numbered).Perm gathered.zipIdx) : (findings.map read).Perm gathered := by
  have reads := h.map Prod.fst
  rwa [List.map_map, List.zipIdx_map_fst] at reads

/-- Reads in the order in which a list pairs them with their records. -/
theorem exists_of_forall₂ {R : Candidate → Record → Prop} {order : List (Candidate × Nat)}
    {records : List Record} (h : List.Forall₂ (fun p r => R p.1 r) order records) :
    ∃ findings : List Finding, findings.map numbered = order ∧ findings.map record = records ∧
      ∀ e ∈ findings, R e.read e.record := by
  induction h with
  | nil => exact ⟨[], rfl, rfl, by simp⟩
  | @cons p r order records here _ ih =>
      obtain ⟨findings, numbers, same, all⟩ := ih
      refine ⟨⟨p.1, p.2, r⟩ :: findings, ?_, ?_, List.forall_mem_cons.mpr ⟨here, all⟩⟩
      · rw [List.map_cons, numbers]
        rfl
      · rw [List.map_cons, same]

end Finding

/-- What a scan found at a path. -/
structure Account where
  path : Path
  findings : List Finding

namespace Account

def records (a : Account) : List Record :=
  a.findings.map Finding.record

/-- The finding is about the text and comes first: no file before its own has a read of the text,
and in its own file it stands before all other reads of the text. That the places in the file are
integers is asked for, since there is no first one among values that are in no order. -/
def First (accounts : List Account) (t : Text) (e : Finding) : Prop :=
  ∃ before a after, accounts = before ++ a :: after ∧
    (∀ b ∈ before, ∀ x ∈ b.findings, ¬x.record.isAbout t) ∧ e ∈ a.findings ∧ e.record.isAbout t ∧
    ((∀ x ∈ a.findings, x.read.IsPlaced) → ∀ x ∈ a.findings, x.record.isAbout t → x ≠ e →
      Precedes Candidate.rank e.numbered x.numbered)

end Account

/-! ## One file, and all of them -/

/-- Each result of a list of runs comes from its own run. -/
theorem Run.forall₂_of_mapM {α β : Type} {f : α → Run β} {xs : List α} {ys : List β} {s : Session}
    (h : (xs.mapM f).result s = .ok ys) :
    List.Forall₂ (fun x y => ∃ t, (f x).result t = .ok y) xs ys := by
  induction xs generalizing ys s with
  | nil =>
      cases h
      exact .nil
  | cons x rest ih =>
      rw [List.mapM_cons] at h
      obtain ⟨y, first, h⟩ := Run.result_bind_eq_ok_iff.mp h
      obtain ⟨more, later, h⟩ := Run.result_bind_eq_ok_iff.mp h
      cases h
      exact .cons ⟨s, first⟩ (ih later)

namespace ScanConfig

variable {config : ScanConfig}

/-- The findings of one file: all its reads, sorted if they can be, each with a record that
resolution gives for it. -/
inductive Lists (config : ScanConfig) (fs : FileSystem) (path : Path) :
    FileOutcome → List Finding → Prop
  | skipped {fault : LoadFault} : SourceUnit.load fs path = .error fault →
      Lists config fs path (.skipped fault.skipReason) []
  | analyzed {unit : SourceUnit} {gathered : List Candidate} {findings : List Finding} :
      SourceUnit.load fs path = .ok unit → Candidate.gather unit.tree = .ok gathered →
      (findings.map Finding.numbered).Perm gathered.zipIdx →
      (∀ e ∈ findings, ∃ s, (config.resolver.record unit e.read).result s = .ok e.record) →
      ((∀ e ∈ findings, e.read.IsPlaced) →
        (findings.map Finding.numbered).Pairwise (Precedes Candidate.rank)) →
      Lists config fs path (.analyzed (findings.map Finding.record)) findings

/-- A scan of several files from one session to another, each with its findings. -/
inductive Scans (config : ScanConfig) : Session → List Account → Session → Prop
  | nil (s : Session) : Scans config s [] s
  | cons {s t u : Session} {a : Account} {rest : List Account} {outcome : FileOutcome} :
      config.scanFile a.path s = .ok outcome t → config.Lists s.files a.path outcome a.findings →
      Scans config t rest u → Scans config s (a :: rest) u

/-- A file that is scanned has findings. -/
theorem exists_lists_of_scanFile {path : Path} {s t : Session} {outcome : FileOutcome}
    (h : config.scanFile path s = .ok outcome t) :
    ∃ findings, config.Lists s.files path outcome findings := by
  cases load : SourceUnit.load s.files path with
  | error fault =>
      obtain ⟨-, rfl⟩ := scanFile_of_error load h
      exact ⟨[], .skipped load⟩
  | ok unit =>
      rw [scanFile_of_load load, Run.eq_ok_iff] at h
      obtain ⟨records, analysis, h⟩ := Run.result_bind_eq_ok_iff.mp h.1
      cases h
      obtain ⟨cs, found, made⟩ := Run.result_raise_bind_eq_ok_iff.mp analysis
      obtain ⟨gathered, order, collected, perm, rfl, sorted⟩ := Candidate.exists_order_of_find found
      obtain ⟨findings, rfl, rfl, each⟩ :=
        Finding.exists_of_forall₂ (List.forall₂_map_left_iff.mp (Run.forall₂_of_mapM made))
      refine ⟨findings, .analyzed load collected perm each fun placed => sorted ?_⟩
      intro c mem
      obtain ⟨e, inside, rfl⟩ := List.mem_map.mp ((Finding.read_perm perm).mem_iff.mpr mem)
      exact placed e inside

/-- The records of a file are those of its findings. -/
theorem Lists.records_eq {fs : FileSystem} {path : Path} {outcome : FileOutcome}
    {findings : List Finding} (h : config.Lists fs path outcome findings) :
    outcome.records = findings.map Finding.record := by
  cases h <;> rfl

/-- If all reads have a place, the findings are in the order of the places. -/
theorem Lists.pairwise {fs : FileSystem} {path : Path} {outcome : FileOutcome}
    {findings : List Finding} (h : config.Lists fs path outcome findings)
    (placed : ∀ e ∈ findings, e.read.IsPlaced) :
    (findings.map Finding.numbered).Pairwise (Precedes Candidate.rank) := by
  cases h with
  | skipped _ => exact .nil
  | analyzed _ _ _ _ sorted => exact sorted placed

/-- A finding is about a read that is gathered from the file. -/
theorem Lists.exists_gathered {fs : FileSystem} {path : Path} {outcome : FileOutcome}
    {findings : List Finding} (h : config.Lists fs path outcome findings) {e : Finding}
    (mem : e ∈ findings) :
    ∃ unit gathered, SourceUnit.load fs path = .ok unit ∧
      Candidate.gather unit.tree = .ok gathered ∧ e.read ∈ gathered := by
  cases h with
  | skipped _ => cases mem
  | @analyzed unit gathered _ load found perm _ _ =>
      refine ⟨unit, gathered, load, found, (Finding.read_perm perm).mem_iff.mp ?_⟩
      exact List.mem_map.mpr ⟨e, mem, rfl⟩

/-- A scan of several files has findings for each of them. -/
theorem exists_scans_of_scanEach {paths : List Path} {s t : Session}
    {outcomes : List (Path × FileOutcome)} (h : config.scanEach paths s = .ok outcomes t) :
    ∃ accounts, config.Scans s accounts t ∧ accounts.map Account.path = paths ∧
      outcomes.flatMap (·.2.records) = accounts.flatMap Account.records := by
  induction paths generalizing s t outcomes with
  | nil =>
      cases h
      exact ⟨[], .nil s, rfl, rfl⟩
  | cons path rest ih =>
      simp only [scanEach, bind, EStateM.bind] at h
      split at h
      · next outcome s' first =>
          split at h
          · next more t' later =>
              cases h
              obtain ⟨findings, lists⟩ := exists_lists_of_scanFile first
              obtain ⟨accounts, scans, visited, same⟩ := ih later
              refine ⟨⟨path, findings⟩ :: accounts, .cons first lists scans, ?_, ?_⟩
              · rw [List.map_cons, visited]
              · rw [List.flatMap_cons, List.flatMap_cons, same, lists.records_eq]
                rfl
          · cases h
      · cases h

/-- If files are not written to during a scan, then all findings come from the files that there were
at its start. -/
theorem Scans.exists_lists {fs : FileSystem} (debug : config.debugDir = none) {s t : Session}
    {accounts : List Account} (h : config.Scans s accounts t) (same : Session.Alike s fs.session)
    (notJson : ∀ a ∈ accounts, a.path.suffix.lower ≠ ".json") :
    ∀ a ∈ accounts, ∃ outcome, config.Lists fs a.path outcome a.findings := by
  induction h with
  | nil s => simp
  | @cons s t u a rest outcome first lists _ ih =>
      obtain ⟨here, later⟩ := List.forall_mem_cons.mp notJson
      have files : s.files = fs := same.files
      refine List.forall_mem_cons.mpr ⟨⟨outcome, files ▸ lists⟩, ?_⟩
      exact ih (scanFile_yields debug here same first).1 later

theorem Scans.pairwise_of_mem {s t : Session} {accounts : List Account}
    (h : config.Scans s accounts t) {a : Account} (mem : a ∈ accounts)
    (placed : ∀ e ∈ a.findings, e.read.IsPlaced) :
    (a.findings.map Finding.numbered).Pairwise (Precedes Candidate.rank) := by
  induction h with
  | nil s => cases mem
  | cons _ lists _ ih =>
      rcases List.mem_cons.mp mem with rfl | mem
      · exact lists.pairwise placed
      · exact ih mem

end ScanConfig

/-! ## The report -/

namespace Record

/-- No two records of a report are about the same text. -/
theorem pairwise_ne_of_aggregate {records kept : List Record} (h : aggregate records = .ok kept)
    (texts : ∀ r ∈ kept, r.identity.value.text?.isSome) :
    kept.Pairwise fun a b => a.subject ≠ b.subject := by
  rw [List.pairwise_iff_forall_sublist]
  intro a b both same
  have about : a.isAbout a.subject := isAbout_subject (texts a (both.subset (by simp)))
  have about' : b.isAbout a.subject := by
    rw [same]
    exact isAbout_subject (texts b (both.subset (by simp)))
  have sublist := both.filter (isAbout a.subject)
  rw [filter_aggregate h, List.filter_cons_of_pos about, List.filter_cons_of_pos about',
    List.filter_nil] at sublist
  have one := sublist.length_le
  cases found : records.find? (isAbout a.subject) <;> simp [found] at one

/-- What is kept is in the order of the subjects, without repetition, if these are texts. -/
theorem pairwise_lt_of_aggregate {records kept : List Record} (h : aggregate records = .ok kept)
    (texts : ∀ r ∈ kept, r.identity.value.text?.isSome) :
    kept.Pairwise fun a b => a.subject < b.subject := by
  have apart := pairwise_ne_of_aggregate h texts
  have texts' : ∀ r ∈ records, r.identity.value.text?.isSome := by
    intro r mem
    obtain ⟨k, inside, same⟩ := (aggregate_covers h).2 r mem
    obtain ⟨t, text⟩ := Option.isSome_iff_exists.mp (texts k inside)
    rw [Value.eq_text_of_text? text, Value.beq_text_eq, decide_eq_true_eq] at same
    rw [same]
    rfl
  rw [aggregate_of_texts texts'] at h
  cases h
  exact ((pairwise_rankSort subject _).and apart).imp fun both => lt_of_le_of_ne both.1 both.2

/-- Aggregation keeps the identities that there are. -/
theorem sameIdentities_aggregate {records kept : List Record} (h : aggregate records = .ok kept) :
    SameIdentities kept records := by
  obtain ⟨sub, cover⟩ := aggregate_covers h
  refine ⟨fun k mem => ⟨k, sub k mem, ?_⟩, cover⟩
  rw [aggregate] at h
  split at h
  · next simple => exact Value.same_self_of_isSimple (List.all_eq_true.mp simple k (sub k mem))
  · cases h

end Record

/-- The first record about a text in the records of all files is that of the first finding. -/
theorem ScanConfig.Scans.exists_first {config : ScanConfig} {s t : Session}
    {accounts : List Account} (h : config.Scans s accounts t) {i : Text} {r : Record}
    (found : (accounts.flatMap Account.records).find? (Record.isAbout i) = some r) :
    ∃ e, e.record = r ∧ Account.First accounts i e := by
  rw [List.find?_flatMap] at found
  obtain ⟨before, a, after, rfl, here, earlier⟩ := List.findSome?_eq_some_iff.mp found
  rw [Account.records, List.find?_map] at here
  obtain ⟨e, first, rfl⟩ := Option.map_eq_some_iff.mp here
  obtain ⟨about, ahead, behind, findings, missed⟩ := List.find?_eq_some_iff_append.mp first
  refine ⟨e, rfl, before, a, after, rfl, ?_, ?_, about, ?_⟩
  · intro b mem x inside
    exact List.find?_eq_none.mp (earlier b mem) x.record (List.mem_map.mpr ⟨x, inside, rfl⟩)
  · rw [findings]
    simp
  · intro placed x inside about' other
    have sorted := h.pairwise_of_mem (by simp) placed
    rw [findings, List.map_append, List.map_cons, List.pairwise_append,
      List.pairwise_cons] at sorted
    rw [findings, List.mem_append, List.mem_cons] at inside
    rcases inside with inside | rfl | inside
    · have absent := missed x inside
      simp [about'] at absent
    · exact absurd rfl other
    · exact sorted.2.1.1 x.numbered (List.mem_map.mpr ⟨x, inside, rfl⟩)

namespace ScanConfig

variable {config : ScanConfig}

/-- The report of a scan that ends well: its records are strictly ascending by the texts that they
are about, they have the identities of all records that were made, and each of them is the record of
the first finding about its text, by path and then by place. -/
theorem report_has_first_of_each {root : Path} {paths : List Path} {fs fs' : FileSystem}
    {result : ScanResult} (h : config.scanFiles root paths fs = .ok result fs') :
    ∃ accounts t, config.Scans fs.session accounts t ∧ accounts.map Account.path = paths ∧
      ((∀ r ∈ result.records, r.identity.value.text?.isSome) →
        result.records.Pairwise fun a b => a.subject < b.subject) ∧
      Record.SameIdentities result.records (accounts.flatMap Account.records) ∧
      ∀ r ∈ result.records, ∀ i, r.isAbout i →
        ∃ e, e.record = r ∧ Account.First accounts i e := by
  obtain ⟨outcomes, t, each, -, records, aggregated, rfl⟩ := exists_outcomes_of_scanFiles h
  obtain ⟨accounts, scans, visited, same⟩ := exists_scans_of_scanEach each
  rw [same] at aggregated
  refine ⟨accounts, t, scans, visited, Record.pairwise_lt_of_aggregate aggregated,
    Record.sameIdentities_aggregate aggregated, ?_⟩
  intro r mem i about
  have kept := List.mem_filter.mpr ⟨mem, about⟩
  rw [Record.filter_aggregate aggregated, Option.mem_toList] at kept
  exact scans.exists_first kept

open Sample in
/-- A reader, a file that does not parse, the module that it follows, and the reader again. -/
theorem report_has_first_of_each_sample :
    ∃ result fs' accounts t,
      scanFiles { followModules := true } "/" paths files = .ok result fs' ∧
      Scans { followModules := true } files.session accounts t ∧
      accounts.map Account.path = paths ∧
      (∀ a ∈ accounts, ∀ x ∈ a.findings, x.read.IsPlaced) ∧ result.records.length = 2 ∧
      (result.records.Pairwise fun a b => a.subject < b.subject) ∧
      ∀ r ∈ result.records, ∃ e, e.record = r ∧ Account.First accounts r.subject e := by
  have ends : ((scanFiles { followModules := true } "/" paths).run' files).isSome := by
    decide +kernel
  obtain ⟨result, fs', run⟩ := exists_ok_of_isSome ends
  have notJson : ∀ path ∈ paths, path.suffix.lower ≠ ".json" := by decide +kernel
  obtain ⟨⟨analyses, mapped, aggregated⟩, -⟩ := scanFiles_sum rfl notJson run
  have computed : ((files.loadable paths).mapM (alone { followModules := true } files)).toOption.all
      fun analyses => analyses.flatten.all (·.identity.value.text?.isSome) &&
        (Record.firstOfEach [] analyses.flatten).length = 2 := by
    decide +kernel
  rw [mapped] at computed
  simp only [Except.toOption, Option.all_some, Bool.and_eq_true, List.all_eq_true,
    decide_eq_true_eq] at computed
  have texts : ∀ r ∈ result.records, r.identity.value.text?.isSome :=
    fun r mem => computed.1 r ((Record.aggregate_covers aggregated).1 r mem)
  obtain ⟨accounts, t, scans, visited, ascending, -, first⟩ := report_has_first_of_each run
  refine ⟨result, fs', accounts, t, run, scans, visited, ?_, ?_, ascending texts, ?_⟩
  · have spots : (files.loadable paths).all fun unit =>
        (Candidate.gather unit.tree).toOption.all
          fun gathered => gathered.all fun c => (Span.place? c.span).isSome := by
      decide +kernel
    intro a mem x inside
    have visited' : a.path ∈ paths := visited ▸ List.mem_map.mpr ⟨a, mem, rfl⟩
    have notJson' : ∀ b ∈ accounts, b.path.suffix.lower ≠ ".json" :=
      fun b mem => notJson b.path (visited ▸ List.mem_map.mpr ⟨b, mem, rfl⟩)
    obtain ⟨outcome, lists⟩ := scans.exists_lists rfl (.refl _) notJson' a mem
    obtain ⟨unit, gathered, load, found, member⟩ := lists.exists_gathered inside
    have loaded : unit ∈ files.loadable paths :=
      List.mem_filterMap.mpr ⟨a.path, visited', by rw [load]; rfl⟩
    have all := List.all_eq_true.mp spots unit loaded
    rw [found] at all
    exact List.all_eq_true.mp all x.read member
  · rw [(Record.perm_of_aggregate aggregated).length_eq]
    exact computed.2
  · exact fun r mem => first r mem r.subject (Record.isAbout_subject (texts r mem))

end ScanConfig

end EnvReads
