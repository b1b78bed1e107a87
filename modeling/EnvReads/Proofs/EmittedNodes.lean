import EnvReads.Proofs.RecoveringConversion
import EnvReads.Proofs.RuleResults

/-!
# What the rules of conversion put below a node

Most rules convert some nodes of the concrete tree and put what these convert to below the node they
make, in the same order, and nothing else (`Concrete.emits_assembleKept`). Only templates, objects
and imports make nodes of their own there (`Symbol.isComposed`).
-/

namespace EnvReads

open Except (Ensures)

namespace Node

@[simp] theorem nodesIn_null : nodesIn .null = [] := rfl

@[simp] theorem nodesIn_bool (b : Bool) : nodesIn (.bool b) = [] := rfl

@[simp] theorem nodesIn_text (t : Text) : nodesIn (.text t) = [] := rfl

@[simp] theorem nodesIn_list_nil : nodesIn (.list []) = [] := rfl

/-- The nodes in a list, the first value first. -/
theorem nodesIn_list_cons (v : Value) (vs : List Value) :
    nodesIn (.list (v :: vs)) = (ofValue? v).toList ++ nodesIn (.list vs) := by
  change (v :: vs).filterMap ofValue? = _
  rw [List.filterMap_cons]
  cases ofValue? v <;> rfl

/-- Unless they are positions, fields give all the nodes in their values. -/
theorem childrenIn_eq {fields : Fields} (proper : fields.all (fun field => !isPosition field.1)) :
    childrenIn fields = fields.flatMap fun field => nodesIn field.2 := by
  rw [childrenIn, List.flatMap_def, List.flatMap_def]
  refine congrArg List.flatten (List.map_congr_left fun field mem => ?_)
  have other := List.all_eq_true.mp proper field mem
  rw [childrenOfField, if_neg (by simpa using other)]

end Node

/-- The rule for the symbol makes several nodes. -/
def Symbol.isComposed : Symbol → Bool
  | templateString | object | objectPattern | importStatement => true
  | _ => false

namespace Concrete

open Rose
open Node (nodesIn)

variable {s : SourceCode} {m : Mark} {c : Concrete} {cs ds : List Concrete} {ns ms : List Node}

/-- What a node converts to, if it does not fail. -/
def converted (s : SourceCode) (c : Concrete) : List Node :=
  (convert s c).toOption.join.toList

/-- What becomes of a node that can be converted. -/
theorem converted_of_convert {r : Option Node} (h : convert s c = .ok r) :
    converted s c = r.toList := by
  rw [converted, h]
  rfl

/-- All nodes of the list convert, and to these nodes. -/
structure Emits (s : SourceCode) (cs : List Concrete) (ns : List Node) : Prop where
  converts : AllConvert s cs
  nodes_eq : ns = cs.flatMap (converted s)

theorem emits_nil : Emits s [] [] :=
  ⟨allConvert_nil, rfl⟩

/-- Lists of nodes are emitted one after the other. -/
theorem Emits.append (h : Emits s cs ns) (h' : Emits s ds ms) : Emits s (cs ++ ds) (ns ++ ms) :=
  ⟨allConvert_append.mpr ⟨h.converts, h'.converts⟩, by
    rw [h.nodes_eq, h'.nodes_eq, List.flatMap_append]⟩

/-- A node emits what becomes of it. -/
theorem emits_single {r : Option Node} (h : convert s c = .ok r) : Emits s [c] r.toList := by
  refine ⟨?_, ?_⟩
  · intro d mem
    rw [List.mem_singleton.mp mem, h]
    rfl
  · rw [List.flatMap_singleton, converted_of_convert h]

/-! ## What rules read -/

theorem filterMap_id_eq_flatMap (rs : List (Option Node)) :
    rs.filterMap id = rs.flatMap Option.toList := by
  induction rs with
  | nil => rfl
  | cons r rs ih =>
      cases r with
      | none => exact ih
      | some n => exact congrArg (n :: ·) ih

/-- An optional node emits its result. -/
theorem emits_resultOf (c : Option Concrete) :
    Ensures (fun r => Emits s c.toList r.toList) (Draft.resultOf (c.map (draft s))) := by
  cases c with
  | none => exact .ok emits_nil
  | some c => exact fun r converts => emits_single converts

/-- A role emits the child that has it. -/
theorem emits_role (cs : List Concrete) (name : Text) :
    Ensures (fun v => Emits s (inRole? cs name).toList (nodesIn v))
      (role (cs.map (draft s)) name) := by
  rw [role, inRole?_draft]
  refine (emits_resultOf _).map fun r emitted => ?_
  rwa [Node.nodesIn_optional]

/-- The first child is emitted. -/
theorem emits_firstKept (cs : List Concrete) :
    Ensures (fun v => Emits s (firstKeptOf cs) (nodesIn v)) (firstKept (cs.map (draft s))) := by
  rw [firstKept, kept_draft, List.head?_map]
  refine (emits_resultOf _).map fun r emitted => ?_
  rwa [Node.nodesIn_optional]

/-- Several nodes emit their results in order. -/
theorem emits_results (cs : List Concrete) :
    Ensures (Emits s cs) (Draft.results (cs.map (draft s))) := by
  have each : ∀ c ∈ cs, Ensures (fun r : Option Node => Emits s [c] r.toList)
      ((draft s c).result) :=
    fun c _ r converts => emits_single converts
  rw [Draft.results, List.mapM_map]
  refine (Ensures.mapM emits_nil Emits.append each).bind fun rs emitted => .ok ?_
  rw [filterMap_id_eq_flatMap]
  simpa using emitted

/-- Arguments are emitted in order. -/
theorem emits_arguments (cs : List Concrete) :
    Ensures (fun v => Emits s (argumentUses cs) (nodesIn v)) (arguments (cs.map (draft s))) := by
  rw [arguments, argumentUses, inRole?_draft]
  cases inRole? cs "arguments" with
  | none => exact .ok emits_nil
  | some a =>
      simp only [Option.map_some, Option.elim_some, children_draft, kept_draft]
      refine (emits_results _).map fun nodes emitted => ?_
      rwa [Node.nodesIn_listOf]

/-- The key of a property emits what it uses. -/
theorem emits_propertyKey (key : Option Concrete) :
    Ensures (fun v => Emits s (keyUses key) (nodesIn v)) (propertyKey (key.map (draft s))) := by
  cases key with
  | none => exact .ok emits_nil
  | some key =>
      simp only [Option.map_some, propertyKey, keyUses, symbol_draft, children_draft]
      split
      · exact emits_firstKept _
      · refine Ensures.map (fun r converts => emits_single converts) fun r emitted => ?_
        rwa [Node.nodesIn_optional]

/-- The expressions of a template are what its substitutions convert to. -/
theorem emits_templateParts {stop start : Int} (cs : List Concrete) :
    Ensures (fun parts : List Value × List Value =>
      Emits s (cs.flatMap fun c => firstKeptOf c.children) (nodesIn (.list parts.2)))
      (templateParts s stop start (cs.map (draft s))) := by
  induction cs generalizing start with
  | nil => exact .bind_of_forall fun last => .ok emits_nil
  | cons c cs ih =>
      have expression : Ensures (fun vs => Emits s (firstKeptOf c.children) (nodesIn (.list vs)))
          ((kept (draft s c).children).head?.elim (.ok []) fun part =>
            (Draft.result part).map fun n => [optional n]) := by
        rw [children_draft, kept_draft, List.head?_map, firstKeptOf]
        cases (kept c.children).head? with
        | none => exact .ok emits_nil
        | some part =>
            refine Ensures.map (fun r converts => emits_single converts) fun r emitted => ?_
            simpa [Node.nodesIn_list_cons] using emitted
      refine .bind_of_forall fun element => ?_
      refine expression.bind fun vs here => ih.bind fun parts below => .ok ?_
      have joined : nodesIn (.list (vs ++ parts.2)) =
          nodesIn (.list vs) ++ nodesIn (.list parts.2) := List.filterMap_append
      rw [joined, List.flatMap_cons]
      exact here.append below

/-! ## Rules -/

/-- The children of a placed node are the nodes in its fields. -/
theorem emits_place {tag : Text} {fields : Fields}
    (proper : fields.all (fun field => !Node.isPosition field.1))
    (h : Emits s cs (fields.flatMap fun field => nodesIn field.2)) :
    Ensures (fun n => Emits s cs n.children) (s.place m tag fields) := by
  intro n placed
  rwa [SourceCode.children_of_place placed, Node.childrenIn_eq proper]

/-- A node without a rule of its own emits all its children. -/
theorem emits_generic :
    Ensures (fun n => Emits s cs n.children) (generic s m (cs.map (draft s))) := by
  refine (emits_results _).bind fun nodes emitted => emits_place rfl ?_
  simpa using emitted

/-- A member expression emits its object and then its property. -/
theorem emits_memberExpression {computed : Bool} {propertyRole : Text} :
    Ensures (fun n => Emits s (inRoles cs ["object", propertyRole]) n.children)
      (memberExpression s m (cs.map (draft s)) computed propertyRole) := by
  refine (emits_role _ _).bind fun object first => ?_
  refine (emits_role _ _).bind fun property last => emits_place rfl ?_
  simpa [inRoles] using first.append last

/-- A binary expression emits its left and then its right side. -/
theorem emits_binary {tag : Text} {operator : Value} (plain : nodesIn operator = []) :
    Ensures (fun n => Emits s (inRoles cs ["left", "right"]) n.children)
      (binary s m tag operator (cs.map (draft s))) := by
  refine (emits_role _ _).bind fun left first => ?_
  refine (emits_role _ _).bind fun right last => emits_place rfl ?_
  simpa [inRoles, plain] using first.append last

/-- A call emits its function and then its arguments. -/
theorem emits_call :
    Ensures (fun n => Emits s ((Selection.call "function").among cs) n.children)
      (call s m (cs.map (draft s))) := by
  intro n made
  obtain ⟨callee, given, calleeRole, listed, placed⟩ := exists_of_call made
  have emitted := (emits_role cs _ callee calleeRole).append (emits_arguments cs given listed)
  refine emits_place rfl ?_ n placed
  simpa [Selection.among, inRoles] using emitted

/-- A construction emits its constructor and then its arguments. -/
theorem emits_newExpression :
    Ensures (fun n => Emits s ((Selection.call "constructor").among cs) n.children)
      (newExpression s m (cs.map (draft s))) := by
  refine (emits_role _ _).bind fun callee first => ?_
  refine (emits_arguments _).bind fun given last => emits_place rfl ?_
  simpa [Selection.among, inRoles] using first.append last

/-- An export emits what it uses. -/
theorem emits_exportDeclaration :
    Ensures (fun n => Emits s (exportUses cs) n.children)
      (exportDeclaration s m (cs.map (draft s))) := by
  simp only [exportDeclaration, exportUses, any_symbol_draft, inRole?_draft, orElse_draft,
    ofSymbol_draft]
  split
  · refine (emits_resultOf _).bind fun value emitted => emits_place rfl ?_
    simpa using emitted
  · refine (emits_resultOf _).bind fun declared first => ?_
    refine (emits_results _).bind fun specifiers next => ?_
    refine (emits_role _ _).bind fun source last => emits_place rfl ?_
    simpa [inRoles] using first.append (next.append last)

theorem nodesIn_textOrNull (t : Option Text) : nodesIn (textOrNull t) = [] := by
  cases t <;> rfl

/-- A number is no node. -/
theorem nodesIn_numeral (t : Text) : nodesIn ((Numeral.value? t).getD .null) = [] := by
  rw [Numeral.value?, Numeral.valueUpTo?, Numeral.ofBare?]
  split
  · cases Text.numeral? _ _ <;> rfl
  · split
    · cases Numeral.ofDigits? _ _ <;> rfl
    · cases Double.read? _ <;> rfl

/-- The children of what a rule makes are the conversions of the nodes that it uses. -/
theorem emits_assembleKept (kept : ¬c.symbol.isSkipped) (simple : ¬c.symbol.isComposed) :
    Ensures (fun n => Emits s c.uses n.children)
      (assembleKept s c.mark (c.children.map (draft s))) := by
  have symbolEq : c.mark.symbol = c.symbol := rfl
  rw [uses, assembleKept, symbolEq]
  cases symbol : c.symbol with
  | comment | hashBangLine | optionalChain => simp [symbol, Symbol.isSkipped] at kept
  | templateString | object | objectPattern | importStatement =>
      simp [symbol, Symbol.isComposed] at simple
  | program | sequenceExpression | arrayPattern =>
      rw [named_draft]
      refine (emits_results _).bind fun nodes emitted => emits_place rfl ?_
      simpa [selection, Selection.among] using emitted
  | expressionStatement | spreadElement | restPattern =>
      refine (emits_firstKept _).bind fun v emitted => emits_place rfl ?_
      simpa [selection, Selection.among] using emitted
  | lexicalDeclaration | variableDeclaration =>
      rw [ofSymbol_draft]
      refine (emits_results _).bind fun nodes emitted => emits_place rfl ?_
      simpa [selection, Selection.among] using emitted
  | variableDeclarator | assignmentPattern =>
      refine (emits_role _ _).bind fun first firstEmitted => ?_
      refine (emits_role _ _).bind fun last lastEmitted => emits_place rfl ?_
      simpa [selection, Selection.among, inRoles] using firstEmitted.append lastEmitted
  | unaryExpression =>
      refine (emits_role _ _).bind fun argument emitted => emits_place rfl ?_
      simpa [selection, Selection.among, inRoles, nodesIn_textOrNull] using emitted
  | ternaryExpression =>
      refine (emits_role _ _).bind fun test first => ?_
      refine (emits_role _ _).bind fun consequent next => ?_
      refine (emits_role _ _).bind fun alternate last => emits_place rfl ?_
      simpa [selection, Selection.among, inRoles] using first.append (next.append last)
  | identifier | propertyIdentifier | shorthandPropertyIdentifier
  | shorthandPropertyIdentifierPattern | statementIdentifier | privatePropertyIdentifier
  | this | undefined => exact emits_place rfl emits_nil
  | memberExpression | subscriptExpression => exact emits_memberExpression
  | parenthesizedExpression =>
      rw [kept_draft]
      exact emits_generic
  | callExpression => exact emits_call
  | newExpression => exact emits_newExpression
  | assignmentExpression | augmentedAssignmentExpression => exact emits_binary rfl
  | binaryExpression => exact emits_binary (nodesIn_textOrNull _)
  | string => exact .bind_of_forall fun value => emits_place rfl emits_nil
  | number =>
      refine emits_place rfl ?_
      simpa [nodesIn_numeral, selection, Selection.among] using emits_nil
  | trueLiteral | falseLiteral | nullLiteral | regex => exact emits_place rfl emits_nil
  | exportStatement => exact emits_exportDeclaration
  | _ =>
      rw [named_draft]
      exact emits_generic

end Concrete

end EnvReads
