import EnvReads.Proofs.EscapeRange
import EnvReads.Proofs.SourcePlaces
import EnvReads.Proofs.VisitedNodes

/-!
# Rules of conversion

A rule of conversion that reads some of the drafts below its node succeeds exactly if these drafts
hold no fault, as long as the node has a place in the source and its escapes are in range
(`Concrete.WellFormed`). Two rules are exceptions: a call whose arguments are a template fails
whatever its parts do, and so does a template that starts at the very end of a source that is not
ASCII, since the text after its first quote then starts beyond the source (`Concrete.isBlocked`).
-/

namespace EnvReads.Concrete

open Rose

/-! ## Drafts of a tree -/

section

variable (s : SourceCode)

/-- The draft of a node has what its rule makes of the drafts below. -/
theorem draft_node (m : Mark) (cs : List Concrete) :
    draft s (.node m cs) =
      .node (m, assemble s m (cs.map (draft s))) (cs.map (draft s)) := by
  rw [draft, Rose.annotate, Rose.annotateAll_eq_map]
  rfl

@[simp] theorem mark_draft (c : Concrete) : (draft s c).mark = c.mark := by
  cases c with
  | node m cs => rw [draft_node]; rfl

@[simp] theorem symbol_draft (c : Concrete) : (draft s c).symbol = c.symbol := by
  rw [symbol, mark_draft, symbol]

@[simp] theorem children_draft (c : Concrete) :
    (draft s c).children = c.children.map (draft s) := by
  cases c with
  | node m cs => rw [draft_node]; rfl

/-- A node is converted by its rule from the drafts of its children. -/
theorem convert_eq (c : Concrete) :
    convert s c = assemble s c.mark (c.children.map (draft s)) := by
  cases c with
  | node m cs => rw [convert, draft_node]; rfl

variable (cs : List Concrete)

/-- Drafts keep which children are named. -/
@[simp] theorem named_draft : named (cs.map (draft s)) = (named cs).map (draft s) := by
  simp [named, List.filter_map, Function.comp_def]

/-- Drafts keep which children are not left out. -/
@[simp] theorem kept_draft : kept (cs.map (draft s)) = (kept cs).map (draft s) := by
  simp [kept, List.filter_map, Function.comp_def]

/-- Drafts keep the roles of children. -/
@[simp] theorem inRole?_draft (role : Text) :
    inRole? (cs.map (draft s)) role = (inRole? cs role).map (draft s) := by
  simp only [inRole?, List.find?_map, Function.comp_def, mark_draft]

theorem orElse_draft (c d : Option Concrete) :
    (c.map (draft s) <|> d.map (draft s)) = (c.or d).map (draft s) := by
  cases c <;> rfl

theorem any_symbol_draft (symbol : Symbol) :
    (cs.map (draft s)).any (·.symbol = symbol) = cs.any (·.symbol = symbol) := by
  simp [Function.comp_def]

theorem ofSymbol_draft (symbol : Symbol) :
    (named (cs.map (draft s))).filter (·.symbol = symbol) =
      (ofSymbol cs symbol).map (draft s) := by
  simp [ofSymbol, List.filter_map, Function.comp_def]

end

/-! ## Trees of a source -/

/-- Where the pieces of a template start and stop: before, between and after its substitutions. -/
def pieces (stop : Int) : Int → List Concrete → List (Int × Int)
  | start, [] => [(start, stop)]
  | start, c :: cs => (start, c.mark.startByte) :: pieces stop c.mark.endByte cs

/-- The texts in which a node reads escapes. -/
def escapedTexts (code : Text) (c : Concrete) : List Text :=
  match c.symbol with
  | .string => [inner (.ofText code) c.mark]
  | .templateString =>
    (pieces (c.mark.endByte - 1) (c.mark.startByte + 1)
      (ofSymbol c.children .templateSubstitution)).map fun (start, stop) =>
        (SourceCode.ofText code).cut start stop
  | _ => []

/-- All nodes of the tree have a place in the source, and no escape in their texts denotes more than
a code point. -/
structure WellFormed (code : Text) (c : Concrete) : Prop where
  placed : ∀ d ∈ c.subtrees, d.mark.Placed code
  inRange : ∀ d ∈ c.subtrees, ∀ t ∈ d.escapedTexts code, ∀ n ∈ Escape.bracedCodes t, n ≤ 0x10FFFF

namespace WellFormed

variable {code : Text} {c d : Concrete}

/-- Every part of a well-formed tree is well formed. -/
theorem of_mem_subtrees (h : c.WellFormed code) (mem : d ∈ c.subtrees) : d.WellFormed code :=
  ⟨fun e below => h.placed e (mem_subtrees_trans mem below),
    fun e below => h.inRange e (mem_subtrees_trans mem below)⟩

theorem of_mem_children (h : c.WellFormed code) (mem : d ∈ c.children) : d.WellFormed code :=
  h.of_mem_subtrees (mem_subtrees_of_child d.mem_subtrees_self mem)

/-- A node of a well-formed tree has a place. -/
theorem isOk_place (h : c.WellFormed code) (tag : Text) (fields : Fields) :
    ((SourceCode.ofText code).place c.mark tag fields).isOk :=
  SourceCode.isOk_place_of_placed (h.placed c c.mem_subtrees_self) tag fields

/-- The texts of a well-formed tree can be unescaped. -/
theorem isOk_unescaped (h : c.WellFormed code) {t : Text} (mem : t ∈ c.escapedTexts code) :
    (unescaped t).isOk := by
  rw [unescaped, Except.isOk_mapError, isOk_unescape_iff]
  exact h.inRange c c.mem_subtrees_self t mem

/-- The inner text of a string can be unescaped. -/
theorem isOk_inner (h : c.WellFormed code) (symbol : c.symbol = .string) :
    (unescaped (inner (.ofText code) c.mark)).isOk := by
  refine h.isOk_unescaped ?_
  rw [escapedTexts, symbol]
  exact .head _

theorem isOk_identifier (h : c.WellFormed code) : (identifier (.ofText code) c.mark).isOk :=
  h.isOk_place _ _

end WellFormed

/-! ## Rules that succeed with their parts -/

/-- Each of the nodes converts. -/
def AllConvert (s : SourceCode) (cs : List Concrete) : Prop :=
  ∀ c ∈ cs, (convert s c).isOk

section

variable {s : SourceCode} {cs ds : List Concrete}

@[simp] theorem allConvert_nil : AllConvert s [] := by
  simp [AllConvert]

/-- Two lists can be converted if both can. -/
@[simp] theorem allConvert_append : AllConvert s (cs ++ ds) ↔ AllConvert s cs ∧ AllConvert s ds :=
  List.forall_mem_append

/-- Children in several roles can be converted if each can. -/
@[simp] theorem allConvert_inRoles_cons {role : Text} {roles : List Text} :
    AllConvert s (inRoles cs (role :: roles)) ↔
      AllConvert s (inRole? cs role).toList ∧ AllConvert s (inRoles cs roles) := by
  rw [inRoles, List.flatMap_cons, allConvert_append, inRoles]

@[simp] theorem allConvert_inRoles_nil : AllConvert s (inRoles cs []) :=
  allConvert_nil

/-- The nodes that several use can be converted if those of each can. -/
theorem allConvert_flatMap {f : Concrete → List Concrete} :
    AllConvert s (cs.flatMap f) ↔ ∀ c ∈ cs, AllConvert s (f c) := by
  simp only [AllConvert, List.mem_flatMap]
  constructor
  · intro all c mem d below
    exact all d ⟨c, mem, below⟩
  · rintro all d ⟨c, mem, below⟩
    exact all c mem d below

/-- Several results can be had if the nodes can be converted. -/
@[simp] theorem isOk_results : (Draft.results (cs.map (draft s))).isOk ↔ AllConvert s cs := by
  simp [Draft.results, Except.isOk_mapM_iff, AllConvert, convert]

/-- An optional result can be had if the node can be converted. -/
@[simp] theorem isOk_resultOf {c : Option Concrete} :
    (Draft.resultOf (c.map (draft s))).isOk ↔ AllConvert s c.toList := by
  cases c with
  | none => simp [Draft.resultOf]
  | some c => simp [Draft.resultOf, AllConvert, convert]

/-- The child in a role can be had if it can be converted. -/
@[simp] theorem isOk_role {name : Text} :
    (role (cs.map (draft s)) name).isOk ↔ AllConvert s (inRole? cs name).toList := by
  rw [role, Except.isOk_map, inRole?_draft, isOk_resultOf]

/-- The first child can be had if it can be converted. -/
@[simp] theorem isOk_firstKept :
    (firstKept (cs.map (draft s))).isOk ↔ AllConvert s (firstKeptOf cs) := by
  rw [firstKept, Except.isOk_map, kept_draft, List.head?_map, isOk_resultOf, firstKeptOf]

end

section

variable {code : Text} {c : Concrete}

/-! ### Expressions -/

/-- A node without a rule of its own needs all its children. -/
theorem isOk_generic (h : c.WellFormed code) {cs : List Concrete} :
    (generic (.ofText code) c.mark (cs.map (draft (.ofText code)))).isOk ↔
      AllConvert (.ofText code) cs := by
  simp [generic, h.isOk_place]

/-- A member expression needs its object and its property. -/
theorem isOk_memberExpression (h : c.WellFormed code) {cs : List Concrete} {computed : Bool}
    {propertyRole : Text} :
    (memberExpression (.ofText code) c.mark (cs.map (draft (.ofText code))) computed
      propertyRole).isOk ↔ AllConvert (.ofText code) (inRoles cs ["object", propertyRole]) := by
  simp [memberExpression, h.isOk_place]

/-- A binary expression needs both sides. -/
theorem isOk_binary (h : c.WellFormed code) {cs : List Concrete} {tag : Text} {operator : Value} :
    (binary (.ofText code) c.mark tag operator (cs.map (draft (.ofText code)))).isOk ↔
      AllConvert (.ofText code) (inRoles cs ["left", "right"]) := by
  simp [binary, h.isOk_place]

/-- Arguments are needed if there are any. -/
@[simp] theorem isOk_arguments {s : SourceCode} {cs : List Concrete} :
    (arguments (cs.map (draft s))).isOk ↔ AllConvert s (argumentUses cs) := by
  rw [arguments, argumentUses, inRole?_draft]
  cases inRole? cs "arguments" with
  | none => simp
  | some a => simp

/-- A construction needs its constructor and its arguments. -/
theorem isOk_newExpression (h : c.WellFormed code) {cs : List Concrete} :
    (newExpression (.ofText code) c.mark (cs.map (draft (.ofText code)))).isOk ↔
      AllConvert (.ofText code) ((Selection.call "constructor").among cs) := by
  simp [newExpression, Selection.among, h.isOk_place]

/-- A template stands where the call has its arguments. -/
def hasTemplateArguments (cs : List Concrete) : Bool :=
  (inRole? cs "arguments").any (·.symbol = .templateString)

/-- A call needs its function and its arguments, and fails if the arguments are a template. -/
theorem isOk_call (h : c.WellFormed code) {cs : List Concrete} :
    (call (.ofText code) c.mark (cs.map (draft (.ofText code)))).isOk ↔
      ¬hasTemplateArguments cs ∧
        AllConvert (.ofText code) ((Selection.call "function").among cs) := by
  have rest : AllConvert (.ofText code) ((Selection.call "function").among cs) ↔
      AllConvert (.ofText code) (inRole? cs "function").toList ∧
        (arguments (cs.map (draft (.ofText code)))).isOk := by
    simp [Selection.among]
  simp only [call, hasTemplateArguments, rest, inRole?_draft]
  cases inRole? cs "arguments" with
  | none => simp [h.isOk_place]
  | some a =>
      by_cases template : a.symbol = .templateString
      · simp [template]
      · simp [template, h.isOk_place]

/-! ### Templates -/

/-- A piece of a template needs its bounds, and text between them that can be unescaped. -/
theorem isOk_templateElement {s : SourceCode} {start stop : Int} {tail : Bool} :
    (templateElement s start stop tail).isOk ↔
      (s.offset start).isOk ∧ (s.offset stop).isOk ∧ (unescaped (s.cut start stop)).isOk := by
  simp [templateElement]

/-- A template succeeds with its pieces and with what stands in its substitutions. -/
theorem isOk_templateParts {s : SourceCode} {stop start : Int} {cs : List Concrete} :
    (templateParts s stop start (cs.map (draft s))).isOk ↔
      (∀ piece ∈ pieces stop start cs, (s.offset piece.1).isOk ∧ (s.offset piece.2).isOk ∧
        (unescaped (s.cut piece.1 piece.2)).isOk) ∧
        AllConvert s (cs.flatMap fun c => firstKeptOf c.children) := by
  induction cs generalizing start with
  | nil => simp [templateParts, pieces, isOk_templateElement]
  | cons c cs ih =>
      have expression : ((kept (draft s c).children).head?.elim (.ok []) fun part =>
          (Draft.result part).map fun n => [optional n]).isOk ↔
            AllConvert s (firstKeptOf c.children) := by
        rw [children_draft, kept_draft, List.head?_map, firstKeptOf]
        cases (kept c.children).head? with
        | none => simp
        | some part => simp [AllConvert, convert]
      simp only [List.map_cons, templateParts, pieces, Except.isOk_bind_iff, Except.isOk_ok,
        and_true, exists_and_right, Except.exists_eq_ok_iff, expression, ih, isOk_templateElement,
        List.forall_mem_cons, List.flatMap_cons, allConvert_append, mark_draft]
      constructor
      · rintro ⟨here, part, later, parts⟩
        exact ⟨⟨here, later⟩, part, parts⟩
      · rintro ⟨⟨here, later⟩, part, parts⟩
        exact ⟨here, part, later, parts⟩

/-- Only where the first piece starts and the last one stops is not the place of a node. -/
theorem isOk_offset_pieces {cs : List Concrete} (placed : ∀ c ∈ cs, c.mark.Placed code)
    {start stop : Int} (last : ((SourceCode.ofText code).offset stop).isOk) :
    (∀ piece ∈ pieces stop start cs, ((SourceCode.ofText code).offset piece.1).isOk ∧
      ((SourceCode.ofText code).offset piece.2).isOk) ↔
      ((SourceCode.ofText code).offset start).isOk := by
  induction cs generalizing start with
  | nil => simp [pieces, last]
  | cons c cs ih =>
      obtain ⟨here, later⟩ := List.forall_mem_cons.mp placed
      have first := SourceCode.isOk_offset_of_hasBoundary here.start
      have next := SourceCode.isOk_offset_of_hasBoundary here.stop
      simp only [pieces, List.forall_mem_cons, ih later, first, next, and_true]

/-- The node starts at the end of a source that is not ASCII. -/
def startsAtEnd (code : Text) (c : Concrete) : Bool :=
  (Utf8.octets code).length ≠ code.length ∧ c.mark.startByte = (Utf8.octets code).length

/-- A template needs its substitutions, and fails if it starts at the end of the source. -/
theorem isOk_templateLiteral (h : c.WellFormed code) (symbol : c.symbol = .templateString) :
    (templateLiteral (.ofText code) c.mark (c.children.map (draft (.ofText code)))).isOk ↔
      ¬c.startsAtEnd code ∧
        AllConvert (.ofText code) (Selection.substitutions.among c.children) := by
  have startLe := (h.placed c c.mem_subtrees_self).start.le
  have stopLe := (h.placed c c.mem_subtrees_self).stop.le
  have last : ((SourceCode.ofText code).offset (c.mark.endByte - 1)).isOk :=
    SourceCode.isOk_offset_iff.mpr (.inr (by omega))
  have first : ((SourceCode.ofText code).offset (c.mark.startByte + 1)).isOk ↔
      ¬c.startsAtEnd code := by
    simp only [SourceCode.isOk_offset_iff, startsAtEnd, decide_eq_true_eq]
    omega
  have placed : ∀ d ∈ ofSymbol c.children .templateSubstitution, d.mark.Placed code :=
    fun d mem => (h.of_mem_children (mem_of_mem_ofSymbol mem)).placed d d.mem_subtrees_self
  have escapes : ∀ piece ∈ pieces (c.mark.endByte - 1) (c.mark.startByte + 1)
      (ofSymbol c.children .templateSubstitution),
      (unescaped ((SourceCode.ofText code).cut piece.1 piece.2)).isOk := by
    intro piece mem
    refine h.isOk_unescaped ?_
    rw [escapedTexts, symbol]
    exact List.mem_map.mpr ⟨piece, mem, rfl⟩
  rw [← first, ← isOk_offset_pieces placed last, templateLiteral]
  simp only [ofSymbol_draft, Except.isOk_bind_iff, h.isOk_place, and_true, Except.exists_eq_ok_iff,
    isOk_templateParts, Selection.among]
  refine and_congr_left fun _ => ⟨fun all piece mem => ?_, fun all piece mem => ?_⟩
  · exact ⟨(all piece mem).1, (all piece mem).2.1⟩
  · exact ⟨(all piece mem).1, (all piece mem).2, escapes piece mem⟩

/-! ### Objects -/

/-- The key of a property needs what it uses. -/
theorem isOk_propertyKey {s : SourceCode} {key : Option Concrete} :
    (propertyKey (key.map (draft s))).isOk ↔ AllConvert s (keyUses key) := by
  cases key with
  | none => simp [propertyKey, keyUses]
  | some key =>
      simp only [Option.map_some, propertyKey, keyUses, symbol_draft, children_draft]
      split
      · rw [isOk_firstKept]
      · simp [AllConvert, convert]

theorem isOk_property (h : c.WellFormed code) (key : Value) (computed : Bool) (value : Value)
    (shorthand : Bool) : (property (.ofText code) c.mark key computed value shorthand).isOk :=
  h.isOk_place _ _

/-- A member of an object needs what it uses. -/
theorem isOk_member (h : c.WellFormed code) :
    (member (.ofText code) (draft (.ofText code) c)).isOk ↔
      AllConvert (.ofText code) (memberUses c) := by
  have self : (draft (.ofText code) c).result.isOk ↔ AllConvert (.ofText code) [c] := by
    simp [AllConvert, convert]
  simp only [member, memberUses, symbol_draft, children_draft, inRole?_draft, mark_draft]
  cases c.symbol with
  | pair | pairPattern =>
      simp only [Except.isOk_bind_iff, Except.isOk_pure, and_true, exists_and_right,
        Except.exists_eq_ok_iff, isOk_propertyKey, isOk_role, isOk_property h, allConvert_append,
        allConvert_inRoles_cons, allConvert_inRoles_nil]
  | shorthandPropertyIdentifier | shorthandPropertyIdentifierPattern =>
      simp only [Except.isOk_bind_iff, Except.isOk_pure, and_true, Except.exists_eq_ok_iff,
        h.isOk_identifier, isOk_property h, allConvert_nil]
  | objectAssignmentPattern =>
      cases found : inRole? c.children "left" with
      | none => exact self
      | some left =>
          have placed := (h.of_mem_children (mem_of_inRole? found)).isOk_identifier
          by_cases like : left.symbol.isIdentifierLike
          · simp only [Option.map_some, Option.any_some, symbol_draft, mark_draft, like, if_true,
              Except.isOk_bind_iff, Except.isOk_pure, and_true, exists_and_right,
              Except.exists_eq_ok_iff, placed, true_and, isOk_role, h.isOk_place, isOk_property h,
              allConvert_inRoles_cons, allConvert_inRoles_nil]
          · simp only [Option.map_some, Option.any_some, symbol_draft, like, Bool.false_eq_true,
              if_false, self]
  | _ => exact self

/-- An object needs its members. -/
theorem isOk_object (h : c.WellFormed code) {tag : Text} :
    (object (.ofText code) c.mark tag (c.children.map (draft (.ofText code)))).isOk ↔
      AllConvert (.ofText code) (Selection.members.among c.children) := by
  simp only [object, kept_draft, Except.isOk_bind_iff, h.isOk_place, and_true,
    Except.exists_eq_ok_iff, Except.isOk_mapM_iff, List.forall_mem_map, Selection.among,
    allConvert_flatMap]
  refine forall₂_congr fun d mem => ?_
  exact isOk_member (h.of_mem_children (mem_of_mem_kept mem))

/-! ### Imports and exports -/

/-- Names in an import have their places and escapes like all nodes of a tree. -/
theorem isOk_moduleName {name : Option Concrete} (h : ∀ d ∈ name, d.WellFormed code) :
    (moduleName (.ofText code) (name.map (draft (.ofText code)))).isOk := by
  cases name with
  | none => rfl
  | some d =>
      have wellFormed : d.WellFormed code := h d rfl
      simp only [Option.map_some, moduleName, symbol_draft, mark_draft]
      split
      · next symbol => simp [wellFormed.isOk_place, wellFormed.isOk_inner symbol]
      · rw [Except.isOk_map]
        exact wellFormed.isOk_identifier

/-- A specifier of an import needs nothing. -/
theorem isOk_importSpecifier (h : c.WellFormed code) :
    (importSpecifier (.ofText code) (draft (.ofText code) c)).isOk := by
  have names : ∀ role, ∀ d ∈ inRole? c.children role, WellFormed code d :=
    fun role d found => h.of_mem_children (mem_of_inRole? found)
  have renamed : ∀ d ∈ (inRole? c.children "alias").or (inRole? c.children "name"),
      WellFormed code d := by
    intro d found
    rcases Option.or_eq_some_iff.mp found with found | ⟨-, found⟩
    · exact names _ d found
    · exact names _ d found
  simp only [importSpecifier, children_draft, inRole?_draft, mark_draft, orElse_draft,
    Except.isOk_bind_iff, h.isOk_place, and_true, Except.exists_eq_ok_iff,
    isOk_moduleName renamed, isOk_moduleName (names _)]

theorem isOk_importPart (h : c.WellFormed code) :
    (importPart (.ofText code) (draft (.ofText code) c)).isOk := by
  simp only [importPart, symbol_draft, children_draft, mark_draft]
  cases c.symbol with
  | identifier =>
      simp only [Except.isOk_bind_iff, Except.isOk_ok, and_true, Except.exists_eq_ok_iff,
        h.isOk_identifier, h.isOk_place]
  | namespaceImport =>
      simp only [named_draft, List.find?_map, Function.comp_def, symbol_draft]
      cases found : (named c.children).find? (·.symbol = .identifier) with
      | none => rfl
      | some target =>
          have mem := mem_of_mem_named (List.mem_of_find?_eq_some found)
          simp only [Option.map_some, mark_draft, Except.isOk_bind_iff, Except.isOk_ok, and_true,
            Except.exists_eq_ok_iff, (h.of_mem_children mem).isOk_identifier, h.isOk_place]
  | namedImports =>
      simp only [ofSymbol_draft]
      rw [Except.isOk_mapM_iff, List.forall_mem_map]
      intro d mem
      exact isOk_importSpecifier (h.of_mem_children (mem_of_mem_ofSymbol mem))
  | _ => rfl

/-- An import needs its source. -/
theorem isOk_importDeclaration (h : c.WellFormed code) :
    (importDeclaration (.ofText code) c.mark (c.children.map (draft (.ofText code)))).isOk ↔
      AllConvert (.ofText code) (inRoles c.children ["source"]) := by
  have specifiers : ((((ofSymbol c.children .importClause).map (draft (.ofText code))).flatMap
      fun clause => named clause.children).mapM (importPart (.ofText code))).isOk := by
    rw [Except.isOk_mapM_iff]
    intro part mem
    obtain ⟨draft, drafted, mem⟩ := List.mem_flatMap.mp mem
    obtain ⟨clause, inside, rfl⟩ := List.mem_map.mp drafted
    rw [children_draft, named_draft] at mem
    obtain ⟨node, below, rfl⟩ := List.mem_map.mp mem
    have wellFormed := h.of_mem_children (mem_of_mem_ofSymbol inside)
    exact isOk_importPart (wellFormed.of_mem_children (mem_of_mem_named below))
  simp only [importDeclaration, ofSymbol_draft, Except.isOk_bind_iff, h.isOk_place, and_true,
    exists_and_right, Except.exists_eq_ok_iff, specifiers, true_and, isOk_role,
    allConvert_inRoles_cons, allConvert_inRoles_nil]

/-- An export needs what it uses. -/
theorem isOk_exportDeclaration (h : c.WellFormed code) :
    (exportDeclaration (.ofText code) c.mark (c.children.map (draft (.ofText code)))).isOk ↔
      AllConvert (.ofText code) (exportUses c.children) := by
  simp only [exportDeclaration, exportUses, any_symbol_draft, inRole?_draft, orElse_draft,
    ofSymbol_draft]
  split
  · simp [h.isOk_place]
  · simp [h.isOk_place]

/-! ### All nodes -/

/-- A node that does not convert, whatever its parts do: a call whose arguments are a template, or a
template at the end of a source that is not ASCII. -/
def isBlocked (code : Text) (c : Concrete) : Bool :=
  c.symbol = .callExpression && hasTemplateArguments c.children ||
    c.symbol = .templateString && c.startsAtEnd code

/-- A rule that places a node succeeds with the nodes that it has converted, unless its node is
blocked. -/
theorem isOk_assembleKept (h : c.WellFormed code) (kept : ¬c.symbol.isSkipped) :
    (assembleKept (.ofText code) c.mark (c.children.map (draft (.ofText code)))).isOk ↔
      ¬c.isBlocked code ∧ AllConvert (.ofText code) c.uses := by
  have symbolEq : c.mark.symbol = c.symbol := rfl
  rw [uses, isBlocked, assembleKept, symbolEq]
  cases symbol : c.symbol with
  | callExpression => simpa [selection] using isOk_call h
  | templateString => simpa [selection] using isOk_templateLiteral h symbol
  | comment | hashBangLine | optionalChain => simp [symbol, Symbol.isSkipped] at kept
  | program | sequenceExpression | arrayPattern =>
      simp [selection, Selection.among, h.isOk_place]
  | expressionStatement | spreadElement | restPattern =>
      simp [selection, Selection.among, h.isOk_place]
  | lexicalDeclaration | variableDeclaration =>
      simp only [ofSymbol_draft]
      simp [selection, Selection.among, h.isOk_place]
  | variableDeclarator | assignmentPattern | unaryExpression | ternaryExpression =>
      simp [selection, Selection.among, h.isOk_place]
  | identifier | propertyIdentifier | shorthandPropertyIdentifier
  | shorthandPropertyIdentifierPattern | statementIdentifier =>
      simp [selection, Selection.among, h.isOk_identifier]
  | privatePropertyIdentifier | this | undefined =>
      simp [selection, Selection.among, h.isOk_place]
  | memberExpression | subscriptExpression =>
      simpa [selection, Selection.among] using isOk_memberExpression h
  | parenthesizedExpression => simpa [selection, Selection.among] using isOk_generic h
  | newExpression => simpa [selection] using isOk_newExpression h
  | assignmentExpression | augmentedAssignmentExpression | binaryExpression =>
      simpa [selection, Selection.among] using isOk_binary h
  | string => simp [selection, Selection.among, literal, h.isOk_place, h.isOk_inner symbol]
  | number | trueLiteral | falseLiteral | nullLiteral | regex =>
      simp [selection, Selection.among, literal, h.isOk_place]
  | object | objectPattern => simpa [selection] using isOk_object h
  | importStatement => simpa [selection, Selection.among] using isOk_importDeclaration h
  | exportStatement => simpa [selection, Selection.among] using isOk_exportDeclaration h
  | _ => simpa [selection, Selection.among] using isOk_generic h

end

end EnvReads.Concrete
