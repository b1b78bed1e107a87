import EnvReads.Proofs.ModuleReferences
import Mathlib.Data.List.Forall2

/-!
# Two readings of an access chain

An access chain such as `a.b["c"]` is read twice: as a static path, by which its declarations are
looked up, and as a text, which stands for it in a report. The text is the segments of the path
joined with dots, as long as no key is a truth value (`Node.hasTruthKey`): as a segment a truth
value is capitalised, in the text it is not.
-/

namespace EnvReads

/-! ## Texts of a key -/

def Value.isTruth : Value → Bool
  | bool _ => true
  | _ => false

/-- A literal of any kind that can be a key has one text as a key and in a report, unless it is a
truth value. -/
theorem Value.keyText?_eq_literalText_iff {v : Value} {t : Text} (h : v.keyText? = some t) :
    t = v.literalText ↔ ¬v.isTruth := by
  cases v with
  | bool b => cases b <;> cases h <;> decide
  | text t | int n | float x =>
      cases h
      exact iff_of_true rfl (by simp [isTruth])
  | null | list _ | record _ => cases h

namespace Text

/-- What stands in the text of a chain for a segment of its path: the segment, or a truth value in
its other spelling. -/
def ReadsAs (segment shown : Text) : Prop :=
  shown = segment ∨
    ∃ b, (Value.bool b).keyText? = some segment ∧ shown = (Value.bool b).literalText

/-- The text of a key reads as the text that is shown for it. -/
theorem readsAs_literalText {v : Value} {t : Text} (h : v.keyText? = some t) :
    t.ReadsAs v.literalText := by
  cases v with
  | bool b => exact .inr ⟨b, h, rfl⟩
  | text t | int n | float x =>
      cases h
      exact .inl rfl
  | null | list _ | record _ => cases h

theorem ReadsAs.length_eq {segment shown : Text} (h : segment.ReadsAs shown) :
    segment.length = shown.length := by
  rcases h with rfl | ⟨b, key, rfl⟩
  · rfl
  · cases b <;> cases key <;> decide +kernel

/-- Pieces of the same lengths can be told from the text that they are joined to. -/
theorem joinWith_inj {sep : Text} {xs ys : List Text}
    (lengths : List.Forall₂ (fun x y => x.length = y.length) xs ys)
    (h : joinWith sep xs = joinWith sep ys) : xs = ys := by
  induction lengths with
  | nil => rfl
  | @cons x y xs ys first rest ih =>
      cases rest with
      | nil => exact congrArg (· :: []) h
      | cons second rest =>
          simp only [joinWith, List.append_assoc] at h
          obtain ⟨rfl, later⟩ := List.append_inj h first
          rw [ih (List.append_cancel_left later)]

end Text

namespace Node

/-- Whether a key of the access chain is a truth value. -/
def hasTruthKey (n : Node) : Bool :=
  n.kind = .memberExpression &&
    ((n.child? "property").any (fun key => key.kind = .literal && key.value.isTruth) ||
      match _h : n.child? "object" with
      | some object => hasTruthKey object
      | none => false)
termination_by sizeOf n.fields
decreasing_by exact sizeOf_child?_lt _h

/-- The identifiers of a tree have texts as names. -/
def NamesAreTexts (tree : Node) : Prop :=
  ∀ m ∈ tree.walk, m.isIdentifier → m.name.text?.isSome

instance (tree : Node) : Decidable tree.NamesAreTexts :=
  inferInstanceAs (Decidable (∀ m ∈ tree.walk, m.isIdentifier → m.name.text?.isSome))

variable {tree n object key : Node} {source : Option Text}

theorem NamesAreTexts.exists_name (h : tree.NamesAreTexts) (mem : n ∈ tree.walk)
    (identifier : n.isIdentifier) : ∃ t, n.name = .text t := by
  obtain ⟨t, text⟩ := Option.isSome_iff_exists.mp (h n mem identifier)
  exact ⟨t, Value.eq_text_of_text? text⟩

/-- A fixed key is a text, and what stands for it in a report is the same one unless the key is a
truth value. -/
theorem exists_of_staticKey? {v : Value} {computed : Bool} (named : tree.NamesAreTexts)
    (mem : n ∈ tree.walk) (h : n.staticKey? computed = .ok (some v)) (source : Option Text) :
    ∃ segment shown, v = .text segment ∧ n.accessPath source = .ok (.text shown) ∧
      segment.ReadsAs shown ∧ (shown = segment ↔ ¬(n.kind = .literal && n.value.isTruth)) := by
  rw [staticKey?] at h
  split at h
  · next plain =>
      have identifier : n.isIdentifier := (Bool.and_eq_true_iff.mp plain).1
      have kind : n.kind = .identifier := of_decide_eq_true identifier
      obtain ⟨t, name⟩ := named.exists_name mem identifier
      rw [name] at h
      cases h
      refine ⟨t, t, rfl, ?_, .inl rfl, ?_⟩
      · rw [accessPath, kind, name]
      · simp [kind]
  · split at h
    · next literal =>
        split at h
        · next t text =>
            obtain ⟨w, written, same⟩ := Except.map_eq_ok_iff.mp h
            cases same
            refine ⟨t, n.value.literalText, rfl, ?_, Text.readsAs_literalText text, ?_⟩
            · rw [accessPath, literal, written, Value.eq_of_writable written]
              rfl
            · rw [eq_comm, Value.keyText?_eq_literalText_iff text]
              simp [literal]
        · cases h
    · cases h

/-! ## Chains -/

section

variable (member : n.kind = .memberExpression) (before : n.child? "object" = some object)
  (last : n.child? "property" = some key)

include member before last

/-- A member has a truth value as key if its object has one or its own key is one. -/
theorem hasTruthKey_of_member :
    n.hasTruthKey ↔ object.hasTruthKey ∨ (key.kind = .literal && key.value.isTruth) := by
  rw [hasTruthKey, member, last]
  split
  · next found =>
      cases before.symm.trans found
      simp [or_comm]
  · next missing => cases before.symm.trans missing

/-- A member is shown as its object, a dot and its key. -/
theorem accessPath_of_member :
    n.accessPath source = do
      let head ← object.accessPath source
      let shown ← key.accessPath source
      return .text (head.shown ++ "." ++ shown.shown) := by
  rw [accessPath, member]
  dsimp only
  split
  · next found found' =>
      cases before.symm.trans found
      cases last.symm.trans found'
      rfl
  · next other => exact absurd last (other _ _ before)

end

/-- The segments of a static path are texts, and the text of its chain has in the place of each one
what stands for it in a report. -/
theorem exists_of_staticPath? {p : StaticPath} (named : tree.NamesAreTexts) (mem : n ∈ tree.walk)
    (h : n.staticPath? = .ok (some p)) (source : Option Text) :
    ∃ segments shown : List Text, p.segments = segments.map Value.text ∧
      n.accessPath source = .ok (.text (Text.joinWith "." shown)) ∧
      List.Forall₂ Text.ReadsAs segments shown ∧ (shown = segments ↔ ¬n.hasTruthKey) := by
  fun_induction staticPath? n generalizing p with
  | case1 n identifier =>
      cases h
      have kind : n.kind = .identifier := of_decide_eq_true identifier
      obtain ⟨t, name⟩ := named.exists_name mem identifier
      refine ⟨[t], [t], by rw [StaticPath.segments, name]; rfl, ?_, .cons (.inl rfl) .nil, ?_⟩
      · rw [accessPath, kind, name]
        rfl
      · rw [hasTruthKey]
        simp [kind]
  | case2 n identifier member object child ih =>
      obtain ⟨head, found, h⟩ := Except.bind_eq_ok_iff.mp h
      cases head with
      | none => cases h
      | some head =>
          obtain ⟨key, keyed, h⟩ := Except.bind_eq_ok_iff.mp h
          obtain ⟨key, rfl, rfl⟩ := Option.map_eq_some_iff.mp (Except.pure_eq_ok_iff.mp h)
          obtain ⟨segments, shown, path, text, reads, agree⟩ :=
            ih (mem_walk_of_child? mem child (by decide)) found
          rw [memberKey?] at keyed
          cases property : n.child? "property" with
          | none =>
              rw [property] at keyed
              cases keyed
          | some last =>
              rw [property, Option.elim_some] at keyed
              obtain ⟨segment, piece, rfl, keyText, readsKey, agreeKey⟩ := exists_of_staticKey?
                named (mem_walk_of_child? mem property (by decide)) keyed source
              refine ⟨segments ++ [segment], shown ++ [piece], ?_, ?_, ?_, ?_⟩
              · rw [List.map_append, ← path]
                rfl
              · have nonempty : shown ≠ [] := by
                  rintro rfl
                  cases reads
                  cases path
                rw [accessPath_of_member member child property, text, keyText,
                  Text.joinWith_append nonempty (List.cons_ne_nil _ _)]
                rfl
              · exact List.rel_append reads (.cons readsKey .nil)
              · rw [hasTruthKey_of_member member child property, not_or, ← agree, ← agreeKey]
                constructor
                · intro same
                  obtain ⟨before, after⟩ := List.append_inj' same rfl
                  exact ⟨before, List.singleton_inj.mp after⟩
                · rintro ⟨rfl, rfl⟩
                  rfl
  | case3 | case4 => cases h

/-- What stands for the segments can be told from the text, since no piece of it has another length
than its segment. -/
theorem exists_joined_iff {p : StaticPath} (named : n.NamesAreTexts)
    (h : n.staticPath? = .ok (some p)) (source : Option Text) :
    ∃ segments shown : List Text, p.segments = segments.map Value.text ∧
      n.accessPath source = .ok (.text (Text.joinWith "." shown)) ∧
      List.Forall₂ Text.ReadsAs segments shown ∧
      (n.accessPath source = .ok (.text (Text.joinWith "." segments)) ↔ ¬n.hasTruthKey) := by
  obtain ⟨segments, shown, path, text, reads, agree⟩ :=
    exists_of_staticPath? named (mem_walkFrom_of_mem (.head _)) h source
  refine ⟨segments, shown, path, text, reads, ?_⟩
  rw [text, ← agree]
  constructor
  · intro same
    injection same with same
    injection same with same
    have lengths := reads.flip.imp fun _ _ read => (Text.ReadsAs.length_eq read).symm
    exact Text.joinWith_inj lengths same
  · rintro rfl
    rfl

/-- The two readings of an access chain agree exactly if none of its keys is a truth value: then the
text that stands for the chain is its segments joined with dots. In any case the text has a piece
for each segment, which differs from it only for a truth value. Of a literal key of any kind, the
text in the path and the text in the report are the same exactly if it is no truth value. -/
theorem accessPath_joins_iff {n : Node} {p : StaticPath} (named : n.NamesAreTexts)
    (static : n.staticPath? = .ok (some p)) (source : Option Text) :
    (∃ segments shown : List Text, p.segments = segments.map Value.text ∧
      n.accessPath source = .ok (.text (Text.joinWith "." shown)) ∧
      List.Forall₂ Text.ReadsAs segments shown ∧
      (n.accessPath source = .ok (.text (Text.joinWith "." segments)) ↔ ¬n.hasTruthKey)) ∧
    ∀ (key : Node) (computed : Bool) (t : Text), key.kind = .literal →
      key.staticKey? computed = .ok (some (.text t)) →
      (t = key.value.literalText ↔ ¬key.value.isTruth) := by
  refine ⟨exists_joined_iff named static source, ?_⟩
  intro key computed t literal h
  have other : ¬(key.isIdentifier && !computed) := by simp [isIdentifier, literal]
  rw [staticKey?, if_neg other, if_pos literal] at h
  split at h
  · next text =>
      obtain ⟨v, -, same⟩ := Except.map_eq_ok_iff.mp h
      cases same
      exact Value.keyText?_eq_literalText_iff text
  · cases h

end Node

namespace Sample

/-- `settings.keys["db.url"][2]`. -/
def chain : Node :=
  Node.make Kind.memberExpression.tag [("computed", .bool true),
    ("object", entry (member (name "settings") "keys") (text "db.url")),
    ("property", node .literal [("value", .int 2)])]

/-- `flags[true]`. -/
def truthChain : Node :=
  Node.make Kind.memberExpression.tag [("computed", .bool true), ("object", name "flags"),
    ("property", node .literal [("value", .bool true)])]

end Sample

open Sample in
/-- A chain with a text key that has a dot and a number. -/
theorem Node.accessPath_joins_iff_chain :
    chain.NamesAreTexts ∧ ¬chain.hasTruthKey ∧ (∃ p, chain.staticPath? = .ok (some p) ∧
      p.segments = [.text "settings", .text "keys", .text "db.url", .text "2"]) ∧
      chain.accessPath none = .ok (.text "settings.keys.db.url.2") := by
  have named : chain.NamesAreTexts := by decide +kernel
  have plain : ¬chain.hasTruthKey := by decide +kernel
  have evaluated : chain.staticPath?.toOption.join.any fun p =>
      p.segments.map Value.shown = (["settings", "keys", "db.url", "2"] : List Text) := by
    decide +kernel
  obtain ⟨p, found, texts⟩ := (Option.any_eq_true _ _).mp evaluated
  have static := Except.toOption_eq_some_iff.mp (Option.join_eq_some_iff.mp found)
  obtain ⟨⟨segments, shown, path, -, -, joins⟩, -⟩ := accessPath_joins_iff named static none
  have read : p.segments.map Value.shown = segments := by
    rw [path, List.map_map]
    exact List.map_id segments
  obtain rfl := read.symm.trans (of_decide_eq_true texts)
  exact ⟨named, plain, ⟨p, static, path⟩, joins.mpr plain⟩

open Sample in
/-- The path of `flags[true]` has a segment that its text has not. -/
theorem Node.not_always_joins : ¬∀ (n : Node) (p : StaticPath) (segments : List Text)
    (source : Option Text), n.NamesAreTexts → n.staticPath? = .ok (some p) →
    p.segments = segments.map Value.text →
    n.accessPath source = .ok (.text (Text.joinWith "." segments)) := by
  intro joins
  have named : truthChain.NamesAreTexts := by decide +kernel
  have truth : truthChain.hasTruthKey := by decide +kernel
  have evaluated : truthChain.staticPath?.toOption.join.isSome := by decide +kernel
  obtain ⟨p, found⟩ := Option.isSome_iff_exists.mp evaluated
  have static := Except.toOption_eq_some_iff.mp (Option.join_eq_some_iff.mp found)
  obtain ⟨segments, shown, path, -, -, agree⟩ := exists_joined_iff named static none
  exact agree.mp (joins truthChain p segments none named static path) truth

end EnvReads
