import EnvReads.Declaration.Origin
import EnvReads.Proofs.RecoveringConversion
import EnvReads.Proofs.RuleResults

/-!
# Pieces of template literals

A template literal is cut at its substitutions. If these stand in order between the two quotes
(`Concrete.IsCut`), nothing is lost: the raw texts of the elements, with the texts of the
substitutions put back between them, are the text between the quotes. What the substitutions convert
to plays no part in this; there can be fewer expressions than substitutions. So the value of a
template is known exactly if it has no substitution, and then it is read from the whole text.
-/

namespace EnvReads

/-! ## Boundaries -/

namespace Text

/-- The first `byte` octets of a text are its first `k` code points. -/
structure Boundary (code : Text) (byte k : Nat) : Prop where
  le : k ≤ code.length
  eq : byte = (Utf8.octets (code.take k)).length

/-- The first `byte` octets of a text are whole code points. -/
def Divides (code : Text) (byte : Nat) : Prop :=
  ∃ k, k < code.length + 1 ∧ byte = (Utf8.octets (code.take k)).length

instance (code : Text) (byte : Nat) : Decidable (code.Divides byte) :=
  inferInstanceAs (Decidable (∃ k, k < code.length + 1 ∧ _))

variable {code : Text} {a b i j : Nat}

/-- A text is divided at a boundary. -/
theorem Divides.boundary (h : code.Divides a) : ∃ k, code.Boundary a k := by
  obtain ⟨k, le, eq⟩ := h
  exact ⟨k, Nat.le_of_lt_succ le, eq⟩

/-- Code points have octets, so of two boundaries the one with more octets has more code points
before it, and never more of these than of octets. -/
theorem Boundary.le_of_le (first : code.Boundary a i) (last : code.Boundary b j) (h : a ≤ b) :
    i ≤ j ∧ j - i ≤ b - a := by
  obtain ⟨hi, rfl⟩ := first
  obtain ⟨hj, rfl⟩ := last
  rcases Nat.le_total i j with order | order
  · refine ⟨order, ?_⟩
    have between := Utf8.length_octets_take_add (code.take j) i
    have least := Utf8.length_le_length_octets ((code.take j).drop i)
    rw [List.take_take, Nat.min_eq_left order] at between
    rw [List.length_drop, List.length_take, Nat.min_eq_left hj] at least
    omega
  · have between := Utf8.length_octets_take_add (code.take i) j
    have least := Utf8.length_le_length_octets ((code.take i).drop j)
    rw [List.take_take, Nat.min_eq_left order] at between
    rw [List.length_drop, List.length_take, Nat.min_eq_left hi] at least
    omega

/-- A code point of one octet ends at the next index. -/
theorem Boundary.succ_eq (first : code.Boundary a i) (last : code.Boundary (a + 1) j) :
    j = i + 1 := by
  have order := first.le_of_le last (Nat.le_succ a)
  have apart : i ≠ j := by
    rintro rfl
    have same := last.eq.trans first.eq.symm
    omega
  omega

end Text

/-- Adjacent slices make one. -/
theorem slice_append_slice {α : Type} {xs : List α} {i j k : Nat} (hij : i ≤ j) (hjk : j ≤ k)
    (hk : k ≤ xs.length) : slice xs i j ++ slice xs j k = slice xs i k := by
  rw [slice_eq (by omega) (by omega), slice_eq (by omega) hk, slice_eq (by omega) hk]
  have later : xs.drop j = (xs.drop i).drop (j - i) := by
    rw [List.drop_drop, Nat.add_sub_cancel' hij]
  have whole : k - i = (j - i) + (k - j) := by omega
  rw [later, whole, List.take_add]

theorem slice_inner {α : Type} {xs : List α} {i j : Nat} (hij : i + 2 ≤ j) (hj : j ≤ xs.length) :
    slice (slice xs i j) 1 (-1) = slice xs (i + 1 : Nat) (j - 1 : Nat) := by
  rw [slice_eq (by omega) hj, slice_eq (by omega) (by omega)]
  have length : ((xs.drop i).take (j - i)).length = j - i := by
    rw [List.length_take, List.length_drop]
    omega
  have first : clampIndex (j - i) 1 = 1 := by
    rw [clampIndex, if_neg (by omega)]
    omega
  have last : clampIndex (j - i) (-1) = j - i - 1 := by
    rw [clampIndex, if_pos (by omega)]
    omega
  rw [slice, length, first, last, List.drop_take, List.take_take, List.drop_drop]
  congr 1
  omega

namespace SourceCode

variable {code : Text} {a b i j : Nat}

/-- At a boundary, the offset in code points. -/
theorem offset_of_boundary (h : code.Boundary a i) : (ofText code).offset a = .ok i := by
  rw [h.eq, offset_boundary h.le]

/-- Octets between two boundaries are read as the code points between them. -/
theorem cut_of_boundary (plain : code.any CodePoint.isSurrogate = false)
    (first : code.Boundary a i) (last : code.Boundary b j) :
    (ofText code).cut a b = slice code i j := by
  have plainBetween : (slice code i j).any CodePoint.isSurrogate = false := by
    rw [slice_eq first.le last.le]
    rw [List.any_eq_false] at plain ⊢
    exact fun c mem => plain c (List.mem_of_mem_drop (List.mem_of_mem_take mem))
  change Utf8.decodeReplacing (slice (Utf8.octets code) a b) = _
  rw [first.eq, last.eq, Utf8.slice_octets first.le last.le,
    Utf8.decodeReplacing_octets plainBetween]

end SourceCode

/-! ## Elements -/

/-- The node is an element of a template: its range cuts out the raw text, and the cooked text is
what that spells. -/
structure Node.IsElement (code raw : Text) (tail : Bool) (q : Node) : Prop where
  tag : q.tag = "TemplateElement"
  text : q.textIn? code = .ok (some raw)
  value : ∃ cooked, unescape raw = .ok cooked ∧
    q.value = .record [("raw", .text raw), ("cooked", .text cooked)]
  tail : q.field? "tail" = some (.bool tail)

/-- The elements of a template with their raw texts. Only the last one is a tail. -/
inductive Elements (code : Text) : List Node → List Text → Prop
  | last {q : Node} {raw : Text} : q.IsElement code raw true → Elements code [q] [raw]
  | cons {q : Node} {raw : Text} {qs : List Node} {raws : List Text} :
      q.IsElement code raw false → Elements code qs raws → Elements code (q :: qs) (raw :: raws)

/-- There are as many elements as raw texts. -/
theorem Elements.length_eq {code : Text} {quasis : List Node} {raws : List Text}
    (h : Elements code quasis raws) : quasis.length = raws.length := by
  induction h with
  | last => rfl
  | cons _ _ ih => exact congrArg (· + 1) ih

/-- Texts with others put between them. -/
def woven : List Text → List Text → Text
  | raw :: raws, t :: ts => raw ++ t ++ woven raws ts
  | raws, _ => raws.flatten

theorem woven_singleton (raw : Text) : woven [raw] [] = raw :=
  List.append_nil raw

namespace Concrete

open Rose
open Except (Ensures)

variable {code : Text} {a b i j : Nat}

theorem unescape_of_unescaped {t v : Text} (h : unescaped t = .ok v) : unescape t = .ok v := by
  rw [unescaped] at h
  cases read : unescape t with
  | error fault =>
      rw [read] at h
      cases h
  | ok w =>
      rw [read] at h
      cases h
      rfl

/-- An element between two boundaries has the text between them. -/
theorem isElement_templateElement (plain : code.any CodePoint.isSurrogate = false)
    (first : code.Boundary a i) (last : code.Boundary b j) (tail : Bool) :
    Ensures (fun v => ∃ q : Node, v = q.toValue ∧ q.IsElement code (slice code i j) tail)
      (templateElement (.ofText code) a b tail) := by
  intro v made
  obtain ⟨start, begins, made⟩ := Except.bind_eq_ok_iff.mp made
  obtain ⟨stop, ends, made⟩ := Except.bind_eq_ok_iff.mp made
  obtain ⟨cooked, spelled, made⟩ := Except.bind_eq_ok_iff.mp made
  cases (SourceCode.offset_of_boundary first).symm.trans begins
  cases (SourceCode.offset_of_boundary last).symm.trans ends
  rw [SourceCode.cut_of_boundary plain first last] at spelled made
  cases made
  exact ⟨_, rfl, rfl, rfl, ⟨cooked, unescape_of_unescaped spelled, rfl⟩, rfl⟩

/-- From one boundary to another, the elements and the substitutions in turn are all of the text. -/
theorem elements_templateParts (plain : code.any CodePoint.isSurrogate = false) {cs : List Concrete}
    (first : code.Boundary a i) (last : code.Boundary b j) (order : a ≤ b)
    (divides : ∀ c ∈ cs, code.Divides c.mark.startByte ∧ code.Divides c.mark.endByte)
    (inside : ∀ c ∈ cs, a ≤ c.mark.startByte ∧ c.mark.startByte ≤ c.mark.endByte ∧
      c.mark.endByte ≤ b)
    (apart : cs.Pairwise fun c d => c.mark.endByte ≤ d.mark.startByte) :
    Ensures (fun parts : List Value × List Value => ∃ quasis raws,
      .list parts.1 = listOf quasis ∧ Elements code quasis raws ∧ raws.length = cs.length + 1 ∧
        woven raws (cs.map ((SourceCode.ofText code).textOf ·.mark)) = slice code i j ∧
        (cs = [] → parts.2 = []))
      (templateParts (.ofText code) b a (cs.map (draft (.ofText code)))) := by
  induction cs generalizing a i with
  | nil =>
      refine (isElement_templateElement plain first last true).bind fun v piece => .ok ?_
      obtain ⟨q, rfl, element⟩ := piece
      exact ⟨[q], [slice code i j], rfl, .last element, rfl, List.append_nil _, fun _ => rfl⟩
  | cons c cs ih =>
      obtain ⟨⟨opens, closes⟩, divides⟩ := List.forall_mem_cons.mp divides
      obtain ⟨⟨starts, nonneg, ends⟩, inside⟩ := List.forall_mem_cons.mp inside
      obtain ⟨later, apart⟩ := List.pairwise_cons.mp apart
      obtain ⟨k, opens⟩ := opens.boundary
      obtain ⟨l, closes⟩ := closes.boundary
      have rest := ih closes ends divides
        (fun d mem => ⟨later d mem, (inside d mem).2⟩) apart
      simp only [List.map_cons, templateParts, mark_draft]
      refine (isElement_templateElement plain first opens false).bind fun v piece => ?_
      refine .bind_of_forall fun expression => rest.bind fun parts cut => .ok ?_
      obtain ⟨q, rfl, element⟩ := piece
      obtain ⟨quasis, raws, listed, elements, length, text, -⟩ := cut
      have substitution : (SourceCode.ofText code).textOf c.mark = slice code k l :=
        SourceCode.cut_of_boundary plain opens closes
      refine ⟨q :: quasis, slice code i k :: raws, ?_, .cons element elements,
        congrArg (· + 1) length, ?_, fun empty => absurd empty (List.cons_ne_nil _ _)⟩
      · rw [listOf, List.map_cons, ← Value.list.inj listed]
      · have ik := (first.le_of_le opens starts).1
        have kl := (opens.le_of_le closes nonneg).1
        have lj := (closes.le_of_le last ends).1
        rw [woven, text, substitution, slice_append_slice ik kl closes.le,
          slice_append_slice (Nat.le_trans ik kl) lj last.le]

/-! ## Templates -/

def substitutions (c : Concrete) : List Concrete :=
  ofSymbol c.children .templateSubstitution

/-- The substitutions of a template stand in order between its quotes, which have one octet each,
and everything starts and ends between code points. -/
structure IsCut (code : Text) (c : Concrete) : Prop where
  opens : code.Divides c.mark.startByte ∧ code.Divides (c.mark.startByte + 1)
  closes : code.Divides (c.mark.endByte - 1) ∧ code.Divides c.mark.endByte
  quotes : c.mark.startByte + 2 ≤ c.mark.endByte
  divides : ∀ d ∈ c.substitutions, code.Divides d.mark.startByte ∧ code.Divides d.mark.endByte
  inside : ∀ d ∈ c.substitutions, c.mark.startByte + 1 ≤ d.mark.startByte ∧
    d.mark.startByte ≤ d.mark.endByte ∧ d.mark.endByte ≤ c.mark.endByte - 1
  apart : c.substitutions.Pairwise fun d e => d.mark.endByte ≤ e.mark.startByte

instance (code : Text) (c : Concrete) : Decidable (c.IsCut code) :=
  decidable_of_iff
    ((code.Divides c.mark.startByte ∧ code.Divides (c.mark.startByte + 1)) ∧
      (code.Divides (c.mark.endByte - 1) ∧ code.Divides c.mark.endByte) ∧
      c.mark.startByte + 2 ≤ c.mark.endByte ∧
      (∀ d ∈ c.substitutions, code.Divides d.mark.startByte ∧ code.Divides d.mark.endByte) ∧
      (∀ d ∈ c.substitutions, c.mark.startByte + 1 ≤ d.mark.startByte ∧
        d.mark.startByte ≤ d.mark.endByte ∧ d.mark.endByte ≤ c.mark.endByte - 1) ∧
      c.substitutions.Pairwise fun d e => d.mark.endByte ≤ e.mark.startByte)
    ⟨fun ⟨opens, closes, quotes, divides, inside, apart⟩ =>
      ⟨opens, closes, quotes, divides, inside, apart⟩,
      fun ⟨opens, closes, quotes, divides, inside, apart⟩ =>
        ⟨opens, closes, quotes, divides, inside, apart⟩⟩

/-- The text between the quotes of a template. -/
theorem IsCut.inner_eq {c : Concrete} (h : c.IsCut code)
    (plain : code.any CodePoint.isSurrogate = false)
    (first : code.Boundary (c.mark.startByte + 1) i) (last : code.Boundary (c.mark.endByte - 1) j) :
    inner (.ofText code) c.mark = slice code i j := by
  obtain ⟨k, opens⟩ := h.opens.1.boundary
  obtain ⟨l, closes⟩ := h.closes.2.boundary
  have quotes := h.quotes
  have afterFirst : i = k + 1 := opens.succ_eq first
  have beforeLast : l = j + 1 := by
    refine last.succ_eq ?_
    rwa [Nat.sub_add_cancel (by omega)]
  have order := (first.le_of_le last (by omega)).1
  rw [inner, SourceCode.textOf, SourceCode.cut_of_boundary plain opens closes,
    slice_inner (by omega) closes.le, afterFirst, beforeLast, Nat.add_sub_cancel]

section

variable {n : Node} {quasis : List Node}

/-- A template that is all text has the value that its element spells. -/
theorem literalValue?_of_single {raw : Text} {q : Node} (tag : n.tag = "TemplateLiteral")
    (expressions : n.field? "expressions" = some (.list []))
    (listed : n.field? "quasis" = some (listOf [q])) (element : q.IsElement code raw true) :
    ∃ v, unescape raw = .ok v ∧ n.literalValue? = .ok (some (.text v)) := by
  obtain ⟨v, spelled, value⟩ := element.value
  have kind : n.kind = .templateLiteral := by
    rw [Node.kind, tag]
    rfl
  have nothing : n.childrenOf "expressions" = [] := by
    rw [Node.childrenOf, expressions]
    rfl
  have only : n.childrenOf "quasis" = [q] := by
    rw [Node.childrenOf, listed]
    exact Node.nodesIn_listOf [q]
  refine ⟨v, spelled, ?_⟩
  rw [Node.literalValue?, kind, nothing, only]
  change (Node.templateValue q).map some = _
  rw [Node.templateValue, value]
  rfl

/-- A template with several elements has no value. -/
theorem literalValue?_of_several (tag : n.tag = "TemplateLiteral")
    (listed : n.field? "quasis" = some (listOf quasis)) (several : 2 ≤ quasis.length) :
    n.literalValue? = .ok none := by
  have kind : n.kind = .templateLiteral := by
    rw [Node.kind, tag]
    rfl
  have all : n.childrenOf "quasis" = quasis := by
    rw [Node.childrenOf, listed]
    exact Node.nodesIn_listOf quasis
  rw [Node.literalValue?, if_neg (by simp [kind]), all]
  split
  · split
    · next only => exact absurd several (by simp)
    · rfl
  · rfl

end

/-- What a template literal converts to is put together from its parts. -/
theorem exists_templateParts_of_convert {s : SourceCode} {c : Concrete}
    (symbol : c.symbol = .templateString) {r : Option Node} (h : convert s c = .ok r) :
    ∃ n parts, r = some n ∧
      templateParts s (c.mark.endByte - 1) (c.mark.startByte + 1 : Nat)
        (c.substitutions.map (draft s)) = .ok parts ∧
      s.place c.mark "TemplateLiteral"
        [("quasis", .list parts.1), ("expressions", .list parts.2)] = .ok n := by
  obtain ⟨n, rfl⟩ : ∃ n, r = some n := by
    refine Option.ne_none_iff_exists'.mp ?_
    rintro rfl
    exact convert_ne_none _ (by rw [symbol]; decide) h
  have made := assembleKept_of_convert (by simp [inside?, symbol]) h
  rw [assembleKept, show c.mark.symbol = .templateString from symbol] at made
  change templateLiteral _ _ _ = _ at made
  rw [templateLiteral, ofSymbol_draft] at made
  obtain ⟨parts, divided, placed⟩ := Except.bind_eq_ok_iff.mp made
  exact ⟨n, parts, rfl, divided, placed⟩

/-- Templates are cut without loss. Whenever a template literal converts, it has one element more
than substitutions; each has the text that its range cuts out of the source and what that spells,
and only the last one is a tail. With the substitutions between them the elements are the whole text
between the quotes. The template has a known value exactly if there is no substitution, whatever a
substitution converts to. The source has no surrogates: with one it has no octets to be parsed. -/
theorem convert_template (plain : code.any CodePoint.isSurrogate = false) {c : Concrete}
    (symbol : c.symbol = .templateString) (cut : c.IsCut code) {r : Option Node}
    (h : convert (.ofText code) c = .ok r) :
    ∃ n quasis raws, r = some n ∧ n.tag = "TemplateLiteral" ∧
      n.field? "quasis" = some (listOf quasis) ∧ Elements code quasis raws ∧
      quasis.length = c.substitutions.length + 1 ∧
      woven raws (c.substitutions.map ((SourceCode.ofText code).textOf ·.mark)) =
        inner (.ofText code) c.mark ∧
      (c.substitutions = [] → ∃ v, unescape (inner (.ofText code) c.mark) = .ok v ∧
        n.literalValue? = .ok (some (.text v))) ∧
      (c.substitutions ≠ [] → n.literalValue? = .ok none) := by
  obtain ⟨i, first⟩ := cut.opens.2.boundary
  obtain ⟨j, last⟩ := cut.closes.1.boundary
  have quotes := cut.quotes
  obtain ⟨n, parts, rfl, divided, made⟩ := exists_templateParts_of_convert symbol h
  have stop : (c.mark.endByte : Int) - 1 = (c.mark.endByte - 1 : Nat) := by omega
  rw [stop] at divided
  obtain ⟨quasis, raws, listed, elements, length, text, unfilled⟩ :=
    elements_templateParts plain first last (by omega) cut.divides cut.inside cut.apart _ divided
  have tag := SourceCode.tag_of_place made
  have fields : n.field? "quasis" = some (listOf quasis) := by
    rw [SourceCode.field?_of_place made (by decide) (by decide), ← listed]
    rfl
  have count : quasis.length = c.substitutions.length + 1 := elements.length_eq.trans length
  have whole := cut.inner_eq plain first last
  refine ⟨n, quasis, raws, rfl, tag, fields, elements, count, text.trans whole.symm, ?_, ?_⟩
  · intro alone
    have expressions : n.field? "expressions" = some (.list []) := by
      rw [SourceCode.field?_of_place made (by decide) (by decide), unfilled alone]
      rfl
    rw [alone] at length text
    cases elements with
    | last element =>
        rw [whole, ← text, List.map_nil, woven_singleton]
        exact literalValue?_of_single tag expressions fields element
    | cons _ more => cases more <;> cases length
  · intro nonempty
    have positive := List.length_pos_iff.mpr nonempty
    exact literalValue?_of_several tag fields (by omega)

end Concrete

namespace Sample

def templateSource : Text :=
  "`é$\x7bx\x7d\\n$\x7b\x7d`"

/-- The tree of ``` `é${x}\n${}` ```, where one substitution is empty. -/
def template : Concrete :=
  .node (mark "template_string" 0 13 none) [
    .node (mark "template_substitution" 3 7 none) [.node (mark "identifier" 5 6 none) []],
    .node (mark "template_substitution" 9 12 none) []]

end Sample

open Sample in
/-- A template whose elements are empty. -/
theorem Concrete.convert_template_empty :
    template.IsCut templateSource ∧ ∃ n quasis raws,
      convert (.ofText templateSource) template = .ok (some n) ∧
      n.field? "quasis" = some (listOf quasis) ∧ Elements templateSource quasis raws ∧
      quasis.length = 3 ∧ woven raws ["$\x7bx\x7d", "$\x7b\x7d"] = "é$\x7bx\x7d\\n$\x7b\x7d" ∧
      n.literalValue? = .ok none := by
  obtain ⟨cut, symbol, plain, isOk, texts, whole⟩ :
      template.IsCut templateSource ∧ template.symbol = .templateString ∧
      templateSource.any CodePoint.isSurrogate = false ∧
      (convert (.ofText templateSource) template).isOk ∧
      template.substitutions.map ((SourceCode.ofText templateSource).textOf ·.mark) =
        (["$\x7bx\x7d", "$\x7b\x7d"] : List Text) ∧
      inner (.ofText templateSource) template.mark =
        ("é$\x7bx\x7d\\n$\x7b\x7d" : Text) := by
    decide +kernel
  have count : template.substitutions.length = 2 := by simpa using congrArg List.length texts
  obtain ⟨r, made⟩ := Except.isOk_iff.mp isOk
  obtain ⟨n, quasis, raws, rfl, -, listed, elements, length, text, -, unknown⟩ :=
    convert_template plain symbol cut made
  rw [count] at length
  rw [texts, whole] at text
  have nonempty : template.substitutions ≠ [] := List.length_pos_iff.mp (by omega)
  exact ⟨cut, n, quasis, raws, made, listed, elements, length, text, unknown nonempty⟩

end EnvReads
