import EnvReads.Module.Export
import EnvReads.Proofs.OriginTrace
import EnvReads.Proofs.Sample
import EnvReads.Proofs.SearchOrder

/-!
# Which assignments give an export its value

The lookup of an export goes through the outermost exports of a module, in the order of the tree,
and never looks inside one of them. `Node.locatedExports` keeps for each value that is found the
place it comes from. An assignment to the exports (`Node.AssignsExport`) is found exactly if it
stands neither below another assignment, of whatever operator and target, nor below an export
declaration (`Node.Enclosed`).
-/

namespace EnvReads

/-! ## Paths of texts -/

namespace Value

theorem isPrefixOf_map_text_iff {vs : List Value} {ts : List Text} :
    vs.isPrefixOf (ts.map text) ↔ vs <+: ts.map text := by
  induction vs generalizing ts with
  | nil => simp
  | cons v vs ih =>
      cases ts with
      | nil => simp
      | cons t ts =>
          have first : (v == text t) ↔ v = text t := by
            rw [beq_text_eq, decide_eq_true_eq]
            constructor
            · exact eq_text_of_text?
            · rintro rfl
              rfl
          rw [List.map_cons, List.isPrefixOf, Bool.and_eq_true, first, ih, List.cons_prefix_cons]

end Value

namespace ExportPath

/-- The path of an export whose name and keys are texts. -/
def ofTexts (name : Text) (keys : List Text) : ExportPath :=
  ⟨.text name, keys.map .text⟩

/-- The slot of a named export has its name in front. -/
theorem slots_ofTexts {name : Text} (h : name ≠ "default") (keys : List Text) :
    (ofTexts name keys).slots = (name :: keys).map .text := by
  have other : (ofTexts name keys).isDefault = false := by simp [isDefault, ofTexts, Value.text?, h]
  rw [slots, other]
  rfl

/-- The slot of the default export has no name. -/
theorem slots_ofTexts_default (keys : List Text) :
    (ofTexts "default" keys).slots = keys.map .text := by
  rfl

end ExportPath

namespace StaticPath

/-- An assignment to the path sets the given part of the exports: the path is `module.exports` and
the slot after it, or `exports` and a slot that is not empty. -/
def SetsSlot (p : StaticPath) (slot : List Value) : Prop :=
  p.segments = .text "module" :: .text "exports" :: slot ∨
    p.segments = .text "exports" :: slot ∧ slot ≠ []

/-- Which paths set an export. -/
theorem exportSlot?_eq_some_iff {p : StaticPath} {slot : List Value} :
    p.exportSlot? = some slot ↔ p.SetsSlot slot := by
  obtain ⟨root, keys⟩ := p
  have different : (Text.ofString "module") ≠ Text.ofString "exports" := by decide
  simp only [exportSlot?, SetsSlot, segments, List.cons.injEq]
  constructor
  · intro h
    split at h
    · next isModule =>
        split at h
        · next key rest =>
            split at h
            · next isExports =>
                cases h
                refine .inl ⟨Value.eq_text_of_text? isModule, ?_⟩
                rw [Value.eq_text_of_text? isExports]
            · cases h
        · cases h
    · split at h
      · next isExports =>
          cases h
          simp only [Bool.and_eq_true, decide_eq_true_eq, Bool.not_eq_true'] at isExports
          refine .inr ⟨⟨Value.eq_text_of_text? isExports.1, rfl⟩, ?_⟩
          simpa using isExports.2
      · cases h
  · rintro (⟨rfl, rfl⟩ | ⟨⟨rfl, rfl⟩, nonempty⟩)
    · rfl
    · simp [Value.text?, different.symm, nonempty]

end StaticPath

namespace Node

theorem staticPath?_of_isIdentifier {n : Node} (h : n.isIdentifier) :
    n.staticPath? = .ok (some ⟨n.name, []⟩) := by
  rw [staticPath?, if_pos h]

/-- The path of a member goes on from that of its object. -/
theorem staticPath?_of_member {n object : Node} {head : StaticPath} {key : Value}
    (kind : n.kind = .memberExpression) (child : n.child? "object" = some object)
    (path : object.staticPath? = .ok (some head))
    (keyed : n.memberKey? "property" = .ok (some key)) :
    n.staticPath? = .ok (some ⟨head.root, head.keys ++ [key]⟩) := by
  have other : ¬n.isIdentifier := by simp [isIdentifier, kind]
  rw [staticPath?, if_neg other, if_pos kind]
  split
  · next found =>
      cases child.symm.trans found
      rw [path, keyed]
      rfl
  · next missing => cases child.symm.trans missing

/-! ## Values with their places -/

/-- What the node at a place gives to an export, with the address of the place. -/
def exportsAt (p : ExportPath) (l : Located) :
    Except Fault (List (Address × Option Node × List Value)) :=
  (l.node.exportedAt p).map fun values => values.map (l.address, ·)

/-- The values of an export in a module, each with the address of the node that gives it. -/
def locatedExports (tree : Node) (p : ExportPath) :
    Except Fault (List (Address × Option Node × List Value)) :=
  ((tree.places isExport).mapM (exportsAt p)).map List.flatten

theorem mapM_exportedAt (p : ExportPath) (ls : List Located) :
    ((ls.map Located.node).mapM (exportedAt p)).map List.flatten =
      ((ls.mapM (exportsAt p)).map List.flatten).map (List.map Prod.snd) := by
  induction ls with
  | nil => rfl
  | cons l rest ih =>
      rw [List.map_cons, Except.map_flatten_mapM_cons, Except.map_flatten_mapM_cons, ih, exportsAt]
      cases l.node.exportedAt p with
      | error fault => rfl
      | ok values =>
          have drop : (values.map (l.address, ·)).map Prod.snd = values := by
            simp [Function.comp_def]
          cases (rest.mapM (exportsAt p)).map List.flatten with
          | error fault => rfl
          | ok more =>
              change Except.ok (values ++ more.map Prod.snd) =
                Except.ok ((values.map (l.address, ·) ++ more).map Prod.snd)
              rw [List.map_append, drop]

/-- The values of an export, without their places, are what the lookup gives. -/
theorem exports_eq_located (tree : Node) (p : ExportPath) :
    tree.exports p = (tree.locatedExports p).map (List.map Prod.snd) := by
  rw [exports, search_eq_places, mapM_exportedAt, locatedExports]

/-- What a node exports is found at its address. -/
theorem address_of_exportsAt {p : ExportPath} {l : Located}
    {here : List (Address × Option Node × List Value)} (h : exportsAt p l = .ok here) :
    ∀ x ∈ here, x.1 = l.address := by
  obtain ⟨values, -, rfl⟩ := Except.map_eq_ok_iff.mp h
  intro x mem
  obtain ⟨value, -, rfl⟩ := List.mem_map.mp mem
  rfl

/-- The values stand in the order of the places that they come from. -/
theorem pairwise_of_exportsAt {p : ExportPath} {ls : List Located}
    {found : List (Address × Option Node × List Value)}
    (sorted : ls.Pairwise fun l l' => l.address < l'.address)
    (h : (ls.mapM (exportsAt p)).map List.flatten = .ok found) :
    found.Pairwise fun x y => x.1 < y.1 ∨ x.1 = y.1 := by
  induction ls generalizing found with
  | nil =>
      cases h
      exact .nil
  | cons l rest ih =>
      obtain ⟨first, later⟩ := List.pairwise_cons.mp sorted
      rw [Except.map_flatten_mapM_cons] at h
      obtain ⟨here, given, h⟩ := Except.bind_eq_ok_iff.mp h
      obtain ⟨more, found', h⟩ := Except.bind_eq_ok_iff.mp h
      cases h
      have address := address_of_exportsAt given
      refine List.pairwise_append.mpr ⟨?_, ih later found', ?_⟩
      · refine List.pairwise_of_forall_mem_list fun x mem y mem' => .inr ?_
        rw [address x mem, address y mem']
      · intro x mem y mem'
        obtain ⟨l', among, here', given', inside⟩ := (Except.mem_of_map_flatten_mapM found').mp mem'
        rw [address x mem, address_of_exportsAt given' y inside]
        exact .inl (first l' among)

theorem passes_of_isExport (n : Node) (h : n.isExport) : n.passes := by
  rw [isExport] at h
  rw [passes]
  cases kind : n.kind <;> simp [kind, Kind.isLeaf] at h ⊢

/-- An export is found at an address that can be reached through no other export. -/
theorem mem_locatedExports_iff {tree : Node} {p : ExportPath}
    {found : List (Address × Option Node × List Value)} (h : tree.locatedExports p = .ok found)
    {a : Address} {value : Option Node × List Value} :
    (a, value) ∈ found ↔ ∃ n values, Reached (fun m => m.passes && !m.isExport) tree a n ∧
      n.isExport ∧ n.exportedAt p = .ok values ∧ value ∈ values := by
  rw [Except.mem_of_map_flatten_mapM h]
  constructor
  · rintro ⟨⟨b, n⟩, mem, here, given, inside⟩
    obtain ⟨reached, export'⟩ := (mem_places_iff passes_of_isExport).mp mem
    obtain ⟨values, exported, rfl⟩ := Except.map_eq_ok_iff.mp given
    obtain ⟨value', mem', same⟩ := List.mem_map.mp inside
    cases same
    exact ⟨n, values, reached, export', exported, mem'⟩
  · rintro ⟨n, values, reached, export', exported, mem⟩
    refine ⟨⟨a, n⟩, (mem_places_iff passes_of_isExport).mpr ⟨reached, export'⟩,
      values.map (a, ·), ?_, List.mem_map.mpr ⟨value, mem, rfl⟩⟩
    rw [exportsAt, exported]
    rfl

/-! ## Assignments to the exports -/

/-- The assignment at the address sets a part of the exports that leads to the export with the path
`segments`: its left side is a slot of the exports and its right side the value, in which the
segments after the slot are still to be followed. -/
def AssignsExport (tree : Node) (segments : List Text) (a : Address)
    (value : Option Node × List Value) : Prop :=
  ∃ n left target slot, Reached passes tree a n ∧ n.isAssignment ∧ n.child? "left" = some left ∧
    left.staticPath? = .ok (some target) ∧ target.SetsSlot slot ∧
    slot ++ value.2 = segments.map .text ∧ value.1 = n.child? "right"

/-- The place is below a node that passes the test. -/
def Enclosed (tree : Node) (test : Node → Bool) (a : Address) : Prop :=
  ∃ b i c n, a = b ++ i :: c ∧ Reached passes tree b n ∧ test n

/-- What is not enclosed in an export can be reached without passing one. -/
theorem reached_of_not_enclosed {tree n : Node} {test : Node → Bool} {a : Address}
    (h : Reached passes tree a n) (free : ¬tree.Enclosed test a) :
    Reached (fun m => m.passes && !test m) tree a n := by
  induction h with
  | here n => exact .here n
  | @step m c n i a entered child _ ih =>
      have first : ¬test m := by
        intro passed
        exact free ⟨[], i, a, m, rfl, .here m, passed⟩
      refine .step (by simp [entered, first]) child (ih ?_)
      rintro ⟨b, j, d, k, rfl, reached, passed⟩
      exact free ⟨i :: b, j, d, k, rfl, .step entered child reached, passed⟩

/-- What can be reached without passing an export is not enclosed in one. -/
theorem not_enclosed_of_reached {tree n : Node} {test : Node → Bool} {a : Address}
    (h : Reached (fun m => m.passes && !test m) tree a n) : ¬tree.Enclosed test a := by
  rintro ⟨b, i, c, k, rfl, reached, passed⟩
  obtain ⟨k', first, rest⟩ := h.exists_of_append
  have fewer : ∀ m : Node, (m.passes && !test m) = true → m.passes = true :=
    fun m h => (Bool.and_eq_true_iff.mp h).1
  obtain rfl := (first.mono fewer).node_unique reached
  cases rest with
  | step entered => simp [passed] at entered

/-- What an assignment to a slot of the exports gives. -/
theorem exportedAt_of_setsSlot {n left : Node} {target : StaticPath} {slot : List Value}
    (assign : n.isAssignment) (child : n.child? "left" = some left)
    (path : left.staticPath? = .ok (some target)) (sets : target.SetsSlot slot) (p : ExportPath) :
    n.exportedAt p = .ok (if slot.isPrefixOf p.slots then
      [(n.child? "right", p.slots.drop slot.length)] else []) := by
  have assigned : n.assignedPath? = .ok (some target) := by
    rw [assignedPath?, if_pos assign, leftPath?, child]
    exact path
  have found : (some target).bind StaticPath.exportSlot? = some slot :=
    StaticPath.exportSlot?_eq_some_iff.mpr sets
  simp only [exportedAt, kind_of_isAssignment assign, assignedExport, assigned, bind, Except.bind,
    found]
  rfl

theorem exportedAt_of_assignsExport {tree : Node} {name : Text} {keys : List Text}
    (named : name ≠ "default") {a : Address} {value : Option Node × List Value}
    (h : tree.AssignsExport (name :: keys) a value) :
    ∃ n, Reached passes tree a n ∧ n.isExport ∧
      n.exportedAt (.ofTexts name keys) = .ok [value] := by
  obtain ⟨n, left, target, slot, reached, assign, child, path, sets, split, right⟩ := h
  have export' : n.isExport := by simp [isExport, kind_of_isAssignment assign]
  have leads : slot.isPrefixOf ((name :: keys).map Value.text) :=
    Value.isPrefixOf_map_text_iff.mpr ⟨value.2, split⟩
  have rest : ((name :: keys).map Value.text).drop slot.length = value.2 := by
    rw [← split, List.drop_left]
  refine ⟨n, reached, export', ?_⟩
  rw [exportedAt_of_setsSlot assign child path sets, ExportPath.slots_ofTexts named, if_pos leads,
    rest, ← right]

/-- Only an assignment whose left side cannot be read makes the lookup fail. -/
theorem isOk_exportedAt_iff {p : ExportPath} {n : Node} :
    (n.exportedAt p).isOk ↔ n.assignedPath?.isOk := by
  by_cases kind : n.kind = .assignmentExpression
  · have here : n.exportedAt p = n.assignedExport p := by simp only [exportedAt, kind]
    rw [here, assignedExport]
    cases n.assignedPath? with
    | error fault => exact Iff.rfl
    | ok target =>
        refine iff_of_true ?_ rfl
        simp only [bind, Except.bind]
        split <;> rfl
  · have unassigned : n.assignedPath?.isOk := by
      rw [assignedPath?, if_neg fun assign => kind (kind_of_isAssignment assign)]
      rfl
    refine iff_of_true ?_ unassigned
    rw [exportedAt]
    split
    · next assignment => exact absurd assignment kind
    all_goals rfl

/-- The lookup of an export returns what it finds exactly if the left sides of the outermost
assignments can be read. -/
theorem isOk_locatedExports_iff {tree : Node} {p : ExportPath} :
    (tree.locatedExports p).isOk ↔ ∀ n, tree.Outermost isExport n → n.assignedPath?.isOk := by
  rw [locatedExports, Except.isOk_map, Except.isOk_mapM_iff]
  have place : ∀ l : Located, (exportsAt p l).isOk ↔ l.node.assignedPath?.isOk := by
    intro l
    rw [exportsAt, Except.isOk_map, isOk_exportedAt_iff]
  constructor
  · rintro all n ⟨a, outermost⟩
    exact (place ⟨a, n⟩).mp (all ⟨a, n⟩ ((mem_places_iff passes_of_isExport).mpr outermost))
  · rintro all ⟨a, n⟩ mem
    exact (place ⟨a, n⟩).mpr (all n ⟨a, (mem_places_iff passes_of_isExport).mp mem⟩)

/-- The values that a module gives an export by assignments are all found, in the order of the tree,
exactly if none of these assignments stands below another assignment or an export declaration, and
the left sides of the assignments that the search stops at can be read. What is found is what the
lookup gives, each value at its place. -/
theorem exports_complete_iff_not_enclosed {tree : Node} {name : Text} {keys : List Text}
    (named : name ≠ "default") :
    tree.exports (.ofTexts name keys) =
        (tree.locatedExports (.ofTexts name keys)).map (List.map Prod.snd) ∧
      ((∃ found, tree.locatedExports (.ofTexts name keys) = .ok found ∧
          found.Pairwise (fun x y => x.1 < y.1 ∨ x.1 = y.1) ∧
          ∀ a value, tree.AssignsExport (name :: keys) a value → (a, value) ∈ found) ↔
        (∀ n, tree.Outermost isExport n → n.assignedPath?.isOk) ∧
          ∀ a value, tree.AssignsExport (name :: keys) a value → ¬tree.Enclosed isExport a) := by
  refine ⟨exports_eq_located tree _, ?_⟩
  rw [← isOk_locatedExports_iff (p := .ofTexts name keys)]
  constructor
  · rintro ⟨found, located, -, all⟩
    refine ⟨Except.isOk_iff.mpr ⟨found, located⟩, fun a value assigns => ?_⟩
    obtain ⟨n, values, reached, -⟩ :=
      (mem_locatedExports_iff located).mp (all a value assigns)
    exact not_enclosed_of_reached reached
  · rintro ⟨ok, free⟩
    obtain ⟨found, located⟩ := Except.isOk_iff.mp ok
    refine ⟨found, located, pairwise_of_exportsAt (pairwise_places tree isExport) located, ?_⟩
    intro a value assigns
    obtain ⟨n, reached, export', exported⟩ := exportedAt_of_assignsExport named assigns
    refine (mem_locatedExports_iff located).mpr ⟨n, [value], ?_, export', exported, .head _⟩
    exact reached_of_not_enclosed reached (free a value assigns)

end Node

namespace Sample

/-- `exports.A = exports.B = "x"`. -/
def chained : Node :=
  program [statement (assignment (member (name "exports") "A")
    (assignment (member (name "exports") "B") (text "x")))]

/-- The inner assignment stands at the right of the outer one. -/
theorem chained_assigns : ∃ value, chained.AssignsExport ["B"] [0, 0, 1] value ∧
    chained.Enclosed Node.isExport [0, 0, 1] := by
  have reached : ∃ n, Node.Reached Node.passes chained [0, 0, 1] n ∧ n.isAssignment ∧
      ∃ left, n.child? "left" = some left ∧ left.kind = .memberExpression ∧
        ∃ object, left.child? "object" = some object ∧ object.isIdentifier ∧
          object.name = .text "exports" ∧ left.memberKey? "property" = .ok (some (.text "B")) :=
    ⟨_, .step rfl rfl (.step rfl rfl (.step rfl rfl (.here _))), rfl, _, rfl, rfl, _, rfl, rfl, rfl,
      rfl⟩
  obtain ⟨n, reached, assign, left, child, member, object, objectChild, identifier, named, keyed⟩ :=
    reached
  have head := Node.staticPath?_of_isIdentifier identifier
  have path := Node.staticPath?_of_member member objectChild head keyed
  rw [named] at path
  refine ⟨(n.child? "right", []), ⟨n, left, _, [.text "B"], reached, assign, child, path, ?_, rfl,
    rfl⟩, ⟨[0, 0], 1, [], _, rfl, .step rfl rfl (.step rfl rfl (.here _)), rfl⟩⟩
  exact .inr ⟨rfl, by simp⟩

end Sample

namespace Node

theorem exports_complete_iff_not_enclosed_chained :
    (Text.ofString "B" ≠ "default") ∧
      ¬∃ found, Sample.chained.locatedExports (.ofTexts "B" []) = .ok found ∧
        found.Pairwise (fun x y => x.1 < y.1 ∨ x.1 = y.1) ∧
        ∀ a value, Sample.chained.AssignsExport ["B"] a value → (a, value) ∈ found := by
  have named : Text.ofString "B" ≠ "default" := by decide
  refine ⟨named, fun complete => ?_⟩
  obtain ⟨value, assigns, enclosed⟩ := Sample.chained_assigns
  exact ((exports_complete_iff_not_enclosed named).2.mp complete).2 _ value assigns enclosed

/-- An assignment to the exports does not always give its value to the export. -/
theorem not_always_exported :
    ¬∀ (tree : Node) (name : Text) (keys : List Text), name ≠ "default" →
      ∀ a value, tree.AssignsExport (name :: keys) a value →
        ∃ values, tree.exports (.ofTexts name keys) = .ok values ∧ value ∈ values := by
  intro always
  obtain ⟨value, assigns, -⟩ := Sample.chained_assigns
  obtain ⟨values, exported, mem⟩ := always _ _ _ (by decide) _ value assigns
  have counted : (Sample.chained.exports (.ofTexts "B" [])).toOption.map List.length = some 0 := by
    decide +kernel
  rw [exported] at counted
  have empty : values = [] := List.length_eq_zero_iff.mp (Option.some.inj counted)
  rw [empty] at mem
  cases mem

end Node

end EnvReads
