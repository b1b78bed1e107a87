import EnvReads.Proofs.EmittedNodes
import EnvReads.Proofs.ModuleReferences

/-!
# Errors that conversion keeps

Error nodes of a concrete tree keep their type, so a converted tree has error nodes too. These are,
in order, the conversions of the error nodes that conversion visits (`Concrete.errorsOf_eq`).
An error node that stands where no rule looks is lost, with all that stands below it.
-/

namespace EnvReads

open Except (Ensures)

namespace Node

/-! ## Errors in syntax trees -/

def isError (n : Node) : Bool :=
  n.tag = "ERROR"

/-- The error nodes of a tree. -/
def errors (n : Node) : List Node :=
  n.walk.filter isError

/-- The errors of a node are itself, if it is one, and those below. -/
theorem errors_eq (n : Node) :
    n.errors = (if n.isError then [n] else []) ++ n.children.flatMap errors := by
  rw [errors, walk_eq, List.filter_cons, List.filter_flatMap]
  split <;> rfl

/-- The errors of another node are those below. -/
theorem errors_of_not_isError {n : Node} (other : n.tag ≠ "ERROR") :
    n.errors = n.children.flatMap errors := by
  rw [errors_eq, isError, decide_eq_false other]
  rfl

/-- The error nodes in the nodes of a value. -/
def errorsIn (v : Value) : List Node :=
  (nodesIn v).flatMap errors

@[simp] theorem errorsIn_bool (b : Bool) : errorsIn (.bool b) = [] := rfl

@[simp] theorem errorsIn_text (t : Text) : errorsIn (.text t) = [] := rfl

/-- The errors of a node are the same in its value. -/
@[simp] theorem errorsIn_toValue (n : Node) : errorsIn n.toValue = n.errors := by
  simp [errorsIn]

/-- The errors in a list are those of its nodes. -/
@[simp] theorem errorsIn_listOf (nodes : List Node) :
    errorsIn (Concrete.listOf nodes) = nodes.flatMap errors := by
  simp [errorsIn]

/-- The errors in the children of fields are those in the fields. -/
theorem errors_childrenIn {fields : Fields}
    (proper : fields.all (fun field => !isPosition field.1)) :
    (childrenIn fields).flatMap errors = fields.flatMap fun field => errorsIn field.2 := by
  rw [childrenIn_eq proper, List.flatMap_assoc]
  rfl

end Node

namespace Concrete

open Rose
open Node (errors errorsIn)

/-! ## Errors below rules -/

section

variable {s : SourceCode} {m : Mark} {c : Concrete} {cs ds : List Concrete} {es fs : List Node}

/-- The error nodes of what a node converts to. -/
def errorsOf (s : SourceCode) (c : Concrete) : List Node :=
  (convert s c).toOption.join.toList.flatMap errors

/-- All nodes of the list convert, and these are the errors in what they convert to. -/
structure Shows (s : SourceCode) (cs : List Concrete) (es : List Node) : Prop where
  converts : AllConvert s cs
  errors_eq : es = cs.flatMap (errorsOf s)

/-- What is emitted shows its errors. -/
theorem Shows.of_emits {ns : List Node} (h : Emits s cs ns) : Shows s cs (ns.flatMap errors) :=
  ⟨h.converts, by rw [h.nodes_eq, List.flatMap_assoc]; rfl⟩

theorem shows_nil : Shows s [] [] :=
  .of_emits emits_nil

/-- Errors are shown one list after the other. -/
theorem Shows.append (h : Shows s cs es) (h' : Shows s ds fs) : Shows s (cs ++ ds) (es ++ fs) :=
  ⟨allConvert_append.mpr ⟨h.converts, h'.converts⟩, by
    rw [h.errors_eq, h'.errors_eq, List.flatMap_append]⟩

/-- A node shows the errors of what becomes of it. -/
theorem shows_single {r : Option Node} (h : convert s c = .ok r) :
    Shows s [c] (r.toList.flatMap errors) :=
  .of_emits (emits_single h)

/-! ### What rules read -/

/-- A role shows the errors of the child that has it. -/
theorem shows_role (cs : List Concrete) (name : Text) :
    Ensures (fun v => Shows s (inRole? cs name).toList (errorsIn v))
      (role (cs.map (draft s)) name) :=
  fun v converts => .of_emits (emits_role cs name v converts)

/-- Steps for the members of a list show errors in step. -/
theorem shows_mapM {α β : Type} {f : α → Except ConcreteFault β} {uses : α → List Concrete}
    {below : β → List Node} {xs : List α}
    (each : ∀ x ∈ xs, Ensures (fun b => Shows s (uses x) (below b)) (f x)) :
    Ensures (fun bs => Shows s (xs.flatMap uses) (bs.flatMap below)) (xs.mapM f) :=
  .mapM shows_nil Shows.append each

theorem shows_nil_mapM {α β : Type} {f : α → Except ConcreteFault β} {below : β → List Node}
    {xs : List α} (each : ∀ x ∈ xs, Ensures (fun b => Shows s [] (below b)) (f x)) :
    Ensures (fun bs => Shows s [] (bs.flatMap below)) (xs.mapM f) := by
  have nothing : xs.flatMap (fun _ => ([] : List Concrete)) = [] :=
    List.flatMap_eq_nil_iff.mpr fun _ _ => rfl
  rw [← nothing]
  exact shows_mapM each

theorem errors_filterMap (rs : List (Option Node)) :
    (rs.filterMap id).flatMap errors = rs.flatMap fun r => r.toList.flatMap errors := by
  rw [filterMap_id_eq_flatMap, List.flatMap_assoc]

/-! ### Placed nodes -/

/-- The errors below a placed node are those in its fields. -/
theorem shows_place {tag : Text} {fields : Fields}
    (proper : fields.all (fun field => !Node.isPosition field.1))
    (h : Shows s cs (fields.flatMap fun field => errorsIn field.2)) :
    Ensures (fun n => Shows s cs (n.children.flatMap errors)) (s.place m tag fields) := by
  intro n placed
  rwa [SourceCode.children_of_place placed, Node.errors_childrenIn proper]

/-- A placed node that is no error has only the errors in its fields. -/
theorem shows_place_of_ne {tag : Text} {fields : Fields} (other : tag ≠ "ERROR")
    (proper : fields.all (fun field => !Node.isPosition field.1))
    (h : Shows s cs (fields.flatMap fun field => errorsIn field.2)) :
    Ensures (fun n => Shows s cs n.errors) (s.place m tag fields) := by
  intro n placed
  rw [Node.errors_of_not_isError (SourceCode.tag_of_place placed ▸ other)]
  exact shows_place proper h n placed

/-- An identifier has no errors. -/
theorem shows_identifier : Ensures (fun n => Shows s [] n.errors) (identifier s m) :=
  shows_place_of_ne (by decide) rfl shows_nil

/-! ### Objects -/

/-- A property shows the errors of its key and of its value. -/
theorem shows_property {key value : Value} {computed shorthand : Bool}
    (keyShown : Shows s cs (errorsIn key)) (valueShown : Shows s ds (errorsIn value)) :
    Ensures (fun n => Shows s (cs ++ ds) n.errors) (property s m key computed value shorthand) := by
  refine shows_place_of_ne (by decide) rfl ?_
  simpa using keyShown.append valueShown

/-- The key of a property shows the errors of what it uses. -/
theorem shows_propertyKey (key : Option Concrete) :
    Ensures (fun v => Shows s (keyUses key) (errorsIn v)) (propertyKey (key.map (draft s))) :=
  fun v converts => .of_emits (emits_propertyKey key v converts)

/-- A member of an object shows the errors of what it uses. -/
theorem shows_member (c : Concrete) :
    Ensures (fun r => Shows s (memberUses c) (r.toList.flatMap errors)) (member s (draft s c)) := by
  have self : Ensures (fun r => Shows s [c] (r.toList.flatMap errors)) (draft s c).result :=
    fun r converted => shows_single converted
  have roles (name : Text) : inRoles c.children [name] = (inRole? c.children name).toList := by
    simp [inRoles]
  simp only [member, memberUses, symbol_draft, children_draft, inRole?_draft, mark_draft]
  cases c.symbol with
  | pair | pairPattern =>
      refine (shows_propertyKey _).bind fun key keyShown => ?_
      refine (shows_role _ _).bind fun value valueShown => ?_
      rw [roles]
      refine (shows_property keyShown valueShown).bind fun n shown => .ok ?_
      simpa using shown
  | shorthandPropertyIdentifier | shorthandPropertyIdentifierPattern =>
      refine shows_identifier.bind fun name shown => ?_
      have shown : Shows s [] (errorsIn name.toValue) := by rwa [Node.errorsIn_toValue]
      refine (shows_property shown shown).bind fun n shown => .ok ?_
      simpa using shown
  | objectAssignmentPattern =>
      cases inRole? c.children "left" with
      | none => exact self
      | some left =>
          simp only [Option.map_some, Option.any_some, symbol_draft, mark_draft]
          split
          · refine shows_identifier.bind fun name nameShown => ?_
            refine (shows_role _ _).bind fun right rightShown => ?_
            have value : Ensures (fun n => Shows s _ n.errors) (s.place c.mark "AssignmentPattern"
                [("left", name.toValue), ("right", right)]) :=
              shows_place_of_ne (by decide) rfl (by simpa using nameShown.append rightShown)
            refine value.bind fun value valueShown => ?_
            rw [roles]
            refine (shows_property (by rwa [Node.errorsIn_toValue])
              (by rwa [Node.errorsIn_toValue])).bind fun n shown => .ok ?_
            simpa using shown
          · exact self
  | _ => exact self

/-- An object shows the errors of its members. -/
theorem shows_object {tag : Text} :
    Ensures (fun n => Shows s ((kept cs).flatMap memberUses) (n.children.flatMap errors))
      (object s m tag (cs.map (draft s))) := by
  rw [object, kept_draft, List.mapM_map]
  have each : ∀ c ∈ kept cs, Ensures (fun r => Shows s (memberUses c) (r.toList.flatMap errors))
      (member s (draft s c)) :=
    fun c _ => shows_member c
  refine (shows_mapM each).bind fun rs shown => shows_place rfl ?_
  rw [List.flatMap_singleton, Node.errorsIn_listOf, errors_filterMap]
  exact shown

/-! ### Templates -/

/-- The errors in a list, those of the first value first. -/
theorem errorsIn_list_cons (v : Value) (vs : List Value) :
    errorsIn (.list (v :: vs)) =
      (Node.ofValue? v).toList.flatMap errors ++ errorsIn (.list vs) := by
  rw [errorsIn, Node.nodesIn_list_cons, List.flatMap_append, errorsIn]

/-- A piece of a template has no errors. -/
theorem errors_templateElement {start stop : Int} {tail : Bool} :
    Ensures (fun v => (Node.ofValue? v).toList.flatMap errors = [])
      (templateElement s start stop tail) := by
  refine .bind_of_forall fun first => .bind_of_forall fun last => .bind_of_forall fun cooked => ?_
  have other : ("TemplateElement" : Text) ≠ "ERROR" := by decide
  refine .ok ?_
  rw [Node.ofValue?_toValue, Option.toList_some, List.flatMap_singleton,
    Node.errors_of_not_isError other]
  rfl

/-- There are no errors in the texts of a template. -/
theorem errors_templateParts {stop start : Int} (ds : List Draft) :
    Ensures (fun parts : List Value × List Value => errorsIn (.list parts.1) = [])
      (templateParts s stop start ds) := by
  induction ds generalizing start with
  | nil =>
      refine errors_templateElement.bind fun last clean => .ok ?_
      rw [errorsIn_list_cons, clean]
      rfl
  | cons d ds ih =>
      refine errors_templateElement.bind fun element clean => ?_
      refine .bind_of_forall fun expression => ih.bind fun parts below => .ok ?_
      rw [errorsIn_list_cons, clean, below]
      rfl

/-- A template shows the errors of its substitutions. -/
theorem shows_templateLiteral :
    Ensures (fun n => Shows s (Selection.substitutions.among cs) (n.children.flatMap errors))
      (templateLiteral s m (cs.map (draft s))) := by
  rw [templateLiteral, ofSymbol_draft]
  intro n made
  obtain ⟨parts, cut, placed⟩ := Except.bind_eq_ok_iff.mp made
  have clean := errors_templateParts _ parts cut
  have shown : Shows s _ (errorsIn (.list parts.2)) := .of_emits (emits_templateParts _ parts cut)
  refine shows_place rfl ?_ n placed
  simpa [clean, Selection.among] using shown

/-! ### Imports -/

theorem shows_moduleName (name : Option Draft) :
    Ensures (fun v => Shows s [] (errorsIn v)) (moduleName s name) := by
  cases name with
  | none => exact .ok shows_nil
  | some d =>
      rw [moduleName]
      split
      · refine .bind_of_forall fun name => ?_
        refine Ensures.map (shows_place_of_ne (by decide) rfl shows_nil) fun n shown => ?_
        rwa [Node.errorsIn_toValue]
      · refine shows_identifier.map fun n shown => ?_
        rwa [Node.errorsIn_toValue]

/-- A specifier of an import has no errors. -/
theorem shows_importSpecifier (d : Draft) :
    Ensures (fun n => Shows s [] n.errors) (importSpecifier s d) := by
  refine (shows_moduleName _).bind fun localName localShown => ?_
  refine (shows_moduleName _).bind fun imported importedShown => ?_
  refine shows_place_of_ne (by decide) rfl ?_
  simpa using localShown.append importedShown

theorem shows_importPart (d : Draft) :
    Ensures (fun nodes => Shows s [] (nodes.flatMap errors)) (importPart s d) := by
  have specifier {m m' : Mark} {tag : Text} (other : tag ≠ "ERROR") :
      Ensures (fun nodes => Shows s [] (nodes.flatMap errors)) (do
        let name ← identifier s m
        let specifier ← s.place m' tag [("local", name.toValue)]
        .ok [specifier]) := by
    refine shows_identifier.bind fun name shown => ?_
    refine Ensures.bind (shows_place_of_ne other rfl (by simpa using shown)) fun n shown => .ok ?_
    simpa using shown
  rw [importPart]
  split
  · exact specifier (by decide)
  · split
    · exact specifier (by decide)
    · exact .ok shows_nil
  · exact shows_nil_mapM fun d _ => shows_importSpecifier d
  · exact .ok shows_nil

/-- An import shows the errors of its source. -/
theorem shows_importDeclaration :
    Ensures (fun n => Shows s (inRoles cs ["source"]) (n.children.flatMap errors))
      (importDeclaration s m (cs.map (draft s))) := by
  refine (shows_nil_mapM fun d _ => shows_importPart d).bind fun specifiers specifiersShown => ?_
  refine (shows_role _ _).bind fun source sourceShown => shows_place rfl ?_
  have joined : specifiers.flatten.flatMap errors = specifiers.flatMap (·.flatMap errors) := by
    rw [← List.flatMap_id, List.flatMap_assoc]
    rfl
  simpa [inRoles, joined] using specifiersShown.append sourceShown

/-! ### All rules -/

/-- The errors below a node are those of the nodes that its rule has converted. -/
theorem shows_assembleKept (kept : ¬c.symbol.isSkipped) :
    Ensures (fun n => Shows s c.uses (n.children.flatMap errors))
      (assembleKept s c.mark (c.children.map (draft s))) := by
  by_cases composed : c.symbol.isComposed
  · have symbolEq : c.mark.symbol = c.symbol := rfl
    rw [uses, assembleKept, symbolEq]
    cases symbol : c.symbol with
    | templateString => exact shows_templateLiteral
    | object | objectPattern => exact shows_object
    | importStatement => exact shows_importDeclaration
    | _ => simp [symbol, Symbol.isComposed] at composed
  · exact fun n made => .of_emits (emits_assembleKept kept composed n made)

end

/-! ## Errors of a converted tree -/

theorem symbol_eq_error_iff {m : Mark} : m.symbol = .error ↔ m.type = "ERROR" := by
  constructor
  · intro symbol
    rw [Mark.symbol, Symbol.ofName] at symbol
    cases found : Symbol.table.lookup m.type with
    | none =>
        rw [found] at symbol
        cases symbol
    | some named =>
        rw [found] at symbol
        cases symbol
        obtain ⟨before, after, split, -⟩ := List.lookup_eq_some_iff.mp found
        have mem : (m.type, Symbol.error) ∈ Symbol.table := by simp [split]
        have only : ∀ entry ∈ Symbol.table, entry.2 = .error → entry.1 = "ERROR" := by
          decide +kernel
        exact only _ mem rfl
  · intro type
    rw [Mark.symbol, type]
    decide +kernel

/-- Only error nodes get the tag of an error. -/
theorem ruleTag_eq_error_iff {s : SourceCode} {m : Mark} {ds : List Draft} :
    ruleTag s m ds = "ERROR" ↔ m.symbol = .error := by
  have generic : m.type = "ERROR" ↔ m.symbol = .error := symbol_eq_error_iff.symm
  rw [ruleTag]
  cases symbol : m.symbol with
  | binaryExpression =>
      dsimp only
      split <;> decide
  | exportStatement =>
      dsimp only
      split <;> decide
  | _ =>
      dsimp only
      first | exact symbol ▸ generic | decide

section

variable {s : SourceCode} {c : Concrete} {n : Node}

/-- A converted node is an error exactly if it came from one. -/
theorem isError_of_convert (bare : c.inside? = none) (h : convert s c = .ok (some n)) :
    n.isError ↔ c.symbol = .error := by
  have tag := hasTag_assembleKept s c.mark _ n (assembleKept_of_convert bare h)
  rw [Node.isError, decide_eq_true_eq, show n.tag = _ from tag]
  exact ruleTag_eq_error_iff

/-- The nodes that count are a node itself and those that count in what it uses. -/
theorem visited_eq (c : Concrete) : c.visited = c :: c.uses.flatMap visited := by
  rw [visited]
  simp

/-- What an error node converts to. -/
def errorOf (s : SourceCode) (c : Concrete) : Option Node :=
  if c.symbol = .error then (convert s c).toOption.join else none

theorem errorOf_of_ne (other : c.symbol ≠ .error) : errorOf s c = none :=
  if_neg other

/-- With a tree all nodes convert that its rule has converted, and the errors of the converted tree
are its own and theirs. -/
theorem shows_convert (h : (convert s c).isOk) :
    ∃ es, errorsOf s c = (errorOf s c).toList ++ es ∧ Shows s c.uses es := by
  by_cases skipped : c.symbol.isSkipped
  · have other : c.symbol ≠ .error := by
      intro symbol
      rw [symbol] at skipped
      cases skipped
    refine ⟨[], ?_, ?_⟩
    · rw [errorOf_of_ne other, errorsOf, convert_of_isSkipped s skipped]
      rfl
    · rw [uses_of_isSkipped skipped]
      exact shows_nil
  · obtain ⟨r, converts⟩ := Except.isOk_iff.mp h
    cases inside : c.inside? with
    | some d =>
        have other : c.symbol ≠ .error := by
          rw [(inside?_eq_some_iff.mp inside).1]
          decide
        refine ⟨r.toList.flatMap errors, ?_, ?_⟩
        · rw [errorOf_of_ne other, errorsOf, converts]
          rfl
        · rw [uses_of_inside? inside]
          exact shows_single (convert_of_inside? inside ▸ converts)
    | none =>
        cases r with
        | none => exact absurd converts (convert_ne_none s skipped)
        | some n =>
            refine ⟨n.children.flatMap errors, ?_,
              shows_assembleKept skipped n (assembleKept_of_convert inside converts)⟩
            rw [errorsOf, errorOf, converts]
            simp only [← isError_of_convert inside converts]
            exact (List.flatMap_singleton _ _).trans (n.errors_eq.trans (by split <;> rfl))

/-- All nodes that count in a tree that can be converted can be converted. -/
theorem allConvert_visited (h : (convert s c).isOk) : AllConvert s c.visited := by
  induction c using visited.induct with
  | case1 c ih =>
      obtain ⟨es, -, shown⟩ := shows_convert h
      intro d mem
      rcases mem_visited_iff.mp mem with rfl | ⟨k, used, inside⟩
      · exact h
      · exact ih ⟨k, used⟩ (shown.converts k used) d inside

/-- The error nodes of a converted tree are, in order, the conversions of the error nodes that
conversion visits. -/
theorem errorsOf_eq (h : (convert s c).isOk) : errorsOf s c = c.visited.filterMap (errorOf s) := by
  induction c using visited.induct with
  | case1 c ih =>
      obtain ⟨es, own, shown⟩ := shows_convert h
      have below : c.uses.flatMap (errorsOf s) =
          c.uses.flatMap fun d => d.visited.filterMap (errorOf s) := by
        rw [List.flatMap_def, List.flatMap_def]
        refine congrArg List.flatten (List.map_congr_left fun d used => ?_)
        exact ih ⟨d, used⟩ (shown.converts d used)
      rw [own, shown.errors_eq, below, visited_eq, ← List.filterMap_flatMap, List.filterMap_cons]
      cases errorOf s c <;> rfl

/-- Membership form of `errorsOf_eq`. -/
theorem mem_walk_isError_iff (h : convert s c = .ok (some n)) {e : Node} :
    e ∈ n.walk ∧ e.isError ↔
      ∃ d ∈ c.visited, d.symbol = .error ∧ convert s d = .ok (some e) := by
  have converts : (convert s c).isOk := by rw [h]; rfl
  have errors : n.errors = c.visited.filterMap (errorOf s) := by
    rw [← errorsOf_eq converts, errorsOf, h]
    exact (List.flatMap_singleton _ _).symm
  rw [← List.mem_filter, ← Node.errors, errors, List.mem_filterMap]
  refine exists_congr fun d => and_congr_right fun mem => ?_
  obtain ⟨r, converted⟩ := Except.isOk_iff.mp (allConvert_visited converts d mem)
  rw [errorOf, converted]
  split
  · next symbol => simp [symbol, Except.toOption]
  · next symbol => simp [symbol]

/-! ## Where errors stand -/

/-- A syntax node stands where a concrete node does. -/
def StandsAs (s : SourceCode) (m : Mark) (e : Node) : Prop :=
  ∃ start stop, s.offset m.startByte = .ok start ∧ s.offset m.endByte = .ok stop ∧
    e.field? "range" = some (.list [.int start, .int stop])

/-- Two concrete nodes stand at the same place of the source. -/
def SamePlace (s : SourceCode) (m m' : Mark) : Prop :=
  s.offset m.startByte = s.offset m'.startByte ∧ s.offset m.endByte = s.offset m'.endByte

theorem StandsAs.samePlace {m m' : Mark} {e : Node} (h : StandsAs s m e) (h' : StandsAs s m' e) :
    SamePlace s m m' := by
  obtain ⟨start, stop, starts, stops, range⟩ := h
  obtain ⟨start', stop', starts', stops', range'⟩ := h'
  cases range.symm.trans range'
  exact ⟨starts.trans starts'.symm, stops.trans stops'.symm⟩

theorem StandsAs.of_samePlace {m m' : Mark} {e : Node} (h : StandsAs s m e)
    (same : SamePlace s m m') : StandsAs s m' e := by
  obtain ⟨start, stop, starts, stops, range⟩ := h
  exact ⟨start, stop, same.1 ▸ starts, same.2 ▸ stops, range⟩

/-- The children that count are named ones that are not skipped. -/
theorem mem_kept_iff {cs : List Concrete} {d : Concrete} :
    d ∈ kept cs ↔ d ∈ cs ∧ d.mark.isNamed ∧ ¬d.symbol.isSkipped := by
  rw [kept, List.mem_filter, named, List.mem_filter, and_assoc, Bool.not_eq_eq_eq_not,
    Bool.not_true, Bool.not_eq_true]

/-- A child that is not skipped is among the results. -/
theorem exists_mem_results {cs : List Concrete} {nodes : List Node}
    (h : Draft.results (cs.map (draft s)) = .ok nodes) {k : Concrete} (mem : k ∈ cs)
    (kept : ¬k.symbol.isSkipped) : ∃ m ∈ nodes, convert s k = .ok (some m) := by
  have emitted := emits_results cs nodes h
  obtain ⟨r, converts⟩ := Except.isOk_iff.mp (emitted.converts k mem)
  cases r with
  | none => exact absurd converts (convert_ne_none s kept)
  | some m =>
      refine ⟨m, ?_, converts⟩
      rw [emitted.nodes_eq, List.mem_flatMap]
      exact ⟨k, mem, by rw [converted_of_convert converts]; exact .head _⟩

/-- An error node converts to an error node in its place that holds what stands below it. -/
theorem exists_of_error {d : Concrete} {e : Node} (symbol : d.symbol = .error)
    (h : convert s d = .ok (some e)) :
    StandsAs s d.mark e ∧ ∀ k ∈ kept d.children, ∃ m ∈ e.children, convert s k = .ok (some m) := by
  have bare : d.inside? = none := by
    rw [inside?, symbol]
    rfl
  have made := assembleKept_of_convert bare h
  have symbol : d.mark.symbol = .error := symbol
  rw [assembleKept, symbol, named_draft] at made
  obtain ⟨nodes, results, placed⟩ := Except.bind_eq_ok_iff.mp made
  refine ⟨?_, fun k mem => ?_⟩
  · obtain ⟨start, stop, starts, stops, range⟩ := SourceCode.range_of_place placed
    exact ⟨start, stop, starts, stops, range⟩
  · obtain ⟨child, grammar, kept⟩ := mem_kept_iff.mp mem
    obtain ⟨m, among, converted⟩ :=
      exists_mem_results results (List.mem_filter.mpr ⟨child, grammar⟩) kept
    refine ⟨m, ?_, converted⟩
    have proper : ¬Node.isPosition "children" := by decide
    rw [SourceCode.children_of_place placed]
    simpa [Node.childrenIn, Node.childrenOfField, proper] using among

/-- An error node below a tree: it is reached through nodes of the grammar, of which none is left
out and none is an error. -/
inductive Exposed : Concrete → Concrete → Prop
  | here {d : Concrete} (error : d.symbol = .error) : Exposed d d
  | step {c k d : Concrete} (passed : c.symbol ≠ .error) (child : k ∈ kept c.children)
      (exposed : Exposed k d) : Exposed c d

/-- What is exposed is an error. -/
theorem Exposed.isError {d : Concrete} (h : c.Exposed d) : d.symbol = .error := by
  induction h with
  | here error => exact error
  | step _ _ _ ih => exact ih

/-- An error node that counts is found again in the converted tree. -/
theorem exists_mem_walk_of_error (h : convert s c = .ok (some n)) {d : Concrete}
    (counts : d ∈ c.visited) (symbol : d.symbol = .error) :
    ∃ e ∈ n.walk, e.tag = "ERROR" ∧ convert s d = .ok (some e) := by
  have converts : (convert s c).isOk := by rw [h]; rfl
  obtain ⟨r, converted⟩ := Except.isOk_iff.mp (allConvert_visited converts d counts)
  cases r with
  | none => exact absurd converted (convert_ne_none s (by rw [symbol]; decide))
  | some e =>
      obtain ⟨mem, error⟩ := (mem_walk_isError_iff h).mpr ⟨d, counts, symbol, converted⟩
      exact ⟨e, mem, of_decide_eq_true error, converted⟩

end

/-- A recovering conversion keeps an exposed error exactly if an error in its place is among the
nodes that count. What stands below an error that counts is kept with it. -/
theorem toSyntax_keeps_error_iff {code : Text} {c : Concrete} {n : Node}
    (converted : toSyntax code true c = .ok (some n)) {d : Concrete} (exposed : c.Exposed d) :
    ((∃ e ∈ n.walk, e.tag = "ERROR" ∧ StandsAs (.ofText code) d.mark e) ↔
      ∃ d' ∈ c.visited, d'.symbol = .error ∧ SamePlace (.ofText code) d'.mark d.mark) ∧
    (d ∈ c.visited → ∃ e ∈ n.walk, e.tag = "ERROR" ∧ StandsAs (.ofText code) d.mark e ∧
      ∀ k ∈ kept d.children, ∃ m ∈ n.walk, convert (.ofText code) k = .ok (some m)) := by
  rw [toSyntax_recovering] at converted
  refine ⟨⟨?_, ?_⟩, fun counts => ?_⟩
  · rintro ⟨e, mem, tag, stands⟩
    obtain ⟨d', counts, symbol, converts⟩ :=
      (mem_walk_isError_iff converted).mp ⟨mem, decide_eq_true tag⟩
    exact ⟨d', counts, symbol, (exists_of_error symbol converts).1.samePlace stands⟩
  · rintro ⟨d', counts, symbol, same⟩
    obtain ⟨e, mem, tag, converts⟩ := exists_mem_walk_of_error converted counts symbol
    exact ⟨e, mem, tag, (exists_of_error symbol converts).1.of_samePlace same⟩
  · obtain ⟨e, mem, tag, converts⟩ := exists_mem_walk_of_error converted counts exposed.isError
    obtain ⟨stands, below⟩ := exists_of_error exposed.isError converts
    refine ⟨e, mem, tag, stands, fun k child => ?_⟩
    obtain ⟨m, inside, converts⟩ := below k child
    exact ⟨m, Node.mem_walkFrom_of_mem_children mem inside, converts⟩

/-! ## An error that is lost -/

/-- The tree of a read `process.env.X` that starts at an octet. -/
def readTree (start : Nat) : Concrete :=
  .node (Sample.mark "member_expression" start (start + 13) none) [
    .node (Sample.mark "member_expression" start (start + 11) (some "object")) [
      .node (Sample.mark "identifier" start (start + 7) (some "object")) [],
      .node (Sample.mark "property_identifier" (start + 8) (start + 11) (some "property")) []],
    .node (Sample.mark "property_identifier" (start + 12) (start + 13) (some "property")) []]

/-- An error that holds such a read. -/
def errorTree (start : Nat) : Concrete :=
  .node (Sample.mark "ERROR" start (start + 13) none) [readTree start]

def brokenSource : Text :=
  "process.env.A let b process.env.C"

/-- A tree of `brokenSource` with one error in the program and one in a declaration. -/
def broken : Concrete :=
  .node (Sample.mark "program" 0 33 none) [
    errorTree 0,
    .node (Sample.mark "lexical_declaration" 14 33 none) [
      .node (Sample.mark "variable_declarator" 18 19 none) [
        .node (Sample.mark "identifier" 18 19 (some "name")) []],
      errorTree 20]]

theorem symbol_errorTree (start : Nat) : (errorTree start).symbol = .error :=
  symbol_eq_error_iff.mpr rfl

theorem errorTree_mem_kept {start : Nat} {cs : List Concrete} (mem : errorTree start ∈ cs) :
    errorTree start ∈ kept cs :=
  mem_kept_iff.mpr ⟨mem, rfl, by rw [symbol_errorTree]; decide⟩

theorem exposed_first : broken.Exposed (errorTree 0) :=
  .step (mt symbol_eq_error_iff.mp (by decide)) (errorTree_mem_kept (.head _))
    (.here (symbol_errorTree 0))

theorem exposed_second : broken.Exposed (errorTree 20) := by
  refine .step (mt symbol_eq_error_iff.mp (by decide))
    (mem_kept_iff.mpr ⟨.tail _ (.head _), rfl, by decide⟩) ?_
  exact .step (mt symbol_eq_error_iff.mp (by decide)) (errorTree_mem_kept (.tail _ (.head _)))
    (.here (symbol_errorTree 20))

/-- Whether a range begins at another place than the given one. -/
def beginsElsewhere (place : Int) : Value → Bool
  | .list (.int start :: _) => start ≠ place
  | _ => true

/-- The tree converts, but no error of the result stands where the second one does. -/
theorem exists_of_broken :
    ∃ n, toSyntax brokenSource true broken = .ok (some n) ∧
      ∀ e ∈ n.walk, e.tag = "ERROR" → ¬StandsAs (.ofText brokenSource) (errorTree 20).mark e := by
  have evaluated : (toSyntax brokenSource true broken).toOption.any (·.any fun n =>
      n.walk.all fun e => e.tag ≠ "ERROR" || (e.field? "range").any (beginsElsewhere 20)) := by
    decide +kernel
  obtain ⟨r, converted, found⟩ := (Option.any_eq_true _ _).mp evaluated
  obtain ⟨n, rfl, lost⟩ := (Option.any_eq_true _ _).mp found
  refine ⟨n, Except.toOption_eq_some_iff.mp converted, ?_⟩
  rintro e mem tag ⟨start, stop, starts, -, range⟩
  have other := List.all_eq_true.mp lost e mem
  have first : start = 20 := (Except.ok.inj starts).symm
  simp [tag, range, first, beginsElsewhere] at other

/-- A program with two error nodes, one of them inside a declaration. -/
theorem toSyntax_keeps_error_iff_broken :
    ∃ n, toSyntax brokenSource true broken = .ok (some n) ∧ broken.Exposed (errorTree 0) ∧
      ∃ e ∈ n.walk, e.tag = "ERROR" ∧ StandsAs (.ofText brokenSource) (errorTree 0).mark e ∧
        ∀ k ∈ kept (errorTree 0).children, ∃ m ∈ n.walk,
          convert (.ofText brokenSource) k = .ok (some m) := by
  obtain ⟨n, converted, -⟩ := exists_of_broken
  have symbol : broken.symbol = .program := by decide
  have used : errorTree 0 ∈ broken.uses := by
    rw [uses, symbol]
    exact List.mem_filter.mpr ⟨.head _, rfl⟩
  have counts : errorTree 0 ∈ broken.visited :=
    mem_visited_iff.mpr (.inr ⟨errorTree 0, used, mem_visited_iff.mpr (.inl rfl)⟩)
  exact ⟨n, converted, exposed_first, (toSyntax_keeps_error_iff converted exposed_first).2 counts⟩

/-- A declaration loses an error among its declarators. -/
theorem not_always_keeps_error :
    ¬∀ code c n d, toSyntax code true c = .ok (some n) → c.Exposed d →
      ∃ e ∈ n.walk, e.tag = "ERROR" ∧ StandsAs (.ofText code) d.mark e := by
  intro keeps
  obtain ⟨n, converted, lost⟩ := exists_of_broken
  obtain ⟨e, mem, tag, stands⟩ := keeps _ _ n _ converted exposed_second
  exact lost e mem tag stands

end Concrete

end EnvReads
