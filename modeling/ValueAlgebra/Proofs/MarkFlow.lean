import Mathlib
import ValueAlgebra.Proofs.Operations
import ValueAlgebra.Proofs.SoundValues

/-!
# Operations and marks

Marks do not interfere with operations: an operation fails on marked operands where it fails on the
operands without marks, it answers with the same value apart from marks, and the answer has the
marks of the operands. `Value.hasElement` is the exception. It looks for an element whose parts are
marked, but which has no marks of its own, as it stands, and equality with such an element is never
known to be true without marks.

Main statements:

* `Operation.marks_do_not_interfere`: all operations.
* `Value.hasElement_of_hidden`: membership of an element with marks inside of it alone.
-/

namespace ValueAlgebra

open Entries

/-! ## Sets of marks -/

namespace MarkSet

instance : Membership String MarkSet :=
  ⟨fun marks name => name ∈ marks.names⟩

instance (name : String) (marks : MarkSet) : Decidable (name ∈ marks) :=
  inferInstanceAs (Decidable (name ∈ marks.names))

instance : HasSubset MarkSet :=
  ⟨fun a b => ∀ name ∈ a, name ∈ b⟩

variable {a b c : MarkSet} {name : String}

theorem mem_insert {other : String} : name ∈ a.insert other ↔ name = other ∨ name ∈ a :=
  Names.mem_insert

@[simp] theorem not_mem_empty : name ∉ empty :=
  List.not_mem_nil

@[simp] theorem mem_union : name ∈ a.union b ↔ name ∈ a ∨ name ∈ b := by
  obtain ⟨names, sorted⟩ := b
  rw [union]
  change name ∈ names.foldl insert a ↔ name ∈ a ∨ name ∈ names
  clear sorted
  induction names generalizing a with
  | nil => simp
  | cons other names ih => rw [List.foldl_cons, ih, mem_insert, List.mem_cons]; tauto

theorem subset_union_left : a ⊆ a.union b :=
  fun _ h => mem_union.2 (.inl h)

theorem subset_union_right : b ⊆ a.union b :=
  fun _ h => mem_union.2 (.inr h)

theorem subset_trans (h : a ⊆ b) (h' : b ⊆ c) : a ⊆ c :=
  fun name hn => h' name (h name hn)

theorem union_subset (h : a ⊆ c) (h' : b ⊆ c) : a.union b ⊆ c :=
  fun name hn => (mem_union.1 hn).elim (h name) (h' name)

theorem isEmpty_iff : a.isEmpty = true ↔ ∀ name, name ∉ a := by
  rw [isEmpty, List.isEmpty_iff, List.eq_nil_iff_forall_not_mem]
  rfl

@[simp] theorem isEmpty_union : (a.union b).isEmpty = (a.isEmpty && b.isEmpty) := by
  rw [Bool.eq_iff_iff, Bool.and_eq_true, isEmpty_iff, isEmpty_iff, isEmpty_iff]
  simp only [mem_union, not_or, forall_and]

end MarkSet

/-! ## Operations without marks -/

namespace Operation

/-- The operation on operands without marks at any depth. -/
def unmarkDeep : Operation → Operation
  | .unary op a => .unary op a.unmarkDeep
  | .binary op a b => .binary op a.unmarkDeep b.unmarkDeep

/-- The marks that an answer has to have. What is compared counts with all its parts. -/
def carried : Operation → MarkSet
  | .unary _ a => a.marks
  | .binary .equals a b | .binary .notEqual a b => a.deepMarks.union b.deepMarks
  | .binary .hasElement a b => a.marks.union b.deepMarks
  | .binary _ a b => a.marks.union b.marks

/-- The marks of an element that is looked for are seen: there are none, or one of the operands has
marks of its own. -/
def Visible : Operation → Prop
  | .binary .hasElement a b => b.containsMarked = true → a.isMarked = true ∨ b.isMarked = true
  | _ => True

end Operation

/-- What a capsule type answers about its payloads has no marks. -/
def Host.AnswersUnmarked [Host] : Prop :=
  ∀ (c : CapsuleType) (p q : Payload), (c.equals p q).containsMarked = false

namespace Value

variable {a b v w : Value}

/-! ## What operations read of a value -/

theorem unmarkDeep_of_content (h : v.content = w.content) : v.unmarkDeep = w.unmarkDeep := by
  obtain ⟨m, c⟩ := v
  obtain ⟨n, d⟩ := w
  cases h
  cases c <;> simp only [unmarkDeep]

@[simp] theorem unmarkDeep_withMarks (v : Value) (marks : MarkSet) :
    (v.withMarks marks).unmarkDeep = v.unmarkDeep :=
  unmarkDeep_of_content rfl

@[simp] theorem unmarkDeep_unmark (v : Value) : v.unmark.unmarkDeep = v.unmarkDeep :=
  unmarkDeep_of_content rfl

@[simp] theorem unmark_unmarkDeep (v : Value) : v.unmarkDeep.unmark = v.unmarkDeep := by
  obtain ⟨m, c⟩ := v
  cases c <;> simp only [unmarkDeep] <;> rfl

@[simp] theorem marks_unmarkDeep (v : Value) : v.unmarkDeep.marks = .empty := by
  obtain ⟨m, c⟩ := v
  cases c <;> simp only [unmarkDeep] <;> rfl

@[simp] theorem unmarkDeep_unmarkDeep (v : Value) : v.unmarkDeep.unmarkDeep = v.unmarkDeep :=
  (unmarkDeep_of_unmarked (containsMarked_unmarkDeep v)).1

@[simp] theorem isKnown_unmark (v : Value) : v.unmark.isKnown = v.isKnown :=
  isKnown_of_content rfl

@[simp] theorem isNull_unmark (v : Value) : v.unmark.isNull = v.isNull :=
  isNull_of_content rfl

@[simp] theorem isWhollyKnown_unmark (v : Value) : v.unmark.isWhollyKnown = v.isWhollyKnown := by
  rw [← (isWhollyKnown_unmarkDeep v.unmark).1, unmarkDeep_unmark, (isWhollyKnown_unmarkDeep v).1]

theorem range_unmarkDeep (v : Value) :
    v.unmarkDeep.range.refinement = v.unmark.range.refinement := by
  obtain ⟨m, c⟩ := v
  cases c <;> simp only [unmarkDeep, unmark, bare, range, content, Refinement.ofContent,
    unmarkDeepAll_eq_map, unmarkDeepEntries_eq_mapValues, mapValues, List.length_map]

theorem number?_unmarkDeep (v : Value) : v.unmarkDeep.number? = v.unmark.number? := by
  obtain ⟨m, c⟩ := v
  cases c <;> simp only [unmarkDeep, unmark, bare, content, number?]

/-- What is read out of a content without its parts can be read without marks. -/
theorem reading_unmarkDeep {α : Type} (operation : String) {read : Content → Option α}
    (same : read v.unmarkDeep.content = read v.content) :
    v.unmarkDeep.reading operation read = v.unmark.reading operation read := by
  have content : v.unmark.content = v.content := rfl
  have left : v.unmarkDeep.isMarked = false := by rw [isMarked, marks_unmarkDeep]; rfl
  have right : v.unmark.isMarked = false := rfl
  simp only [reading, left, right, isKnown_unmarkDeep, isNull_unmarkDeep, isKnown_unmark,
    isNull_unmark, content, same, ty_unmarkDeep, ty_unmark]

theorem asBool_unmarkDeep (v : Value) : v.unmarkDeep.asBool = v.unmark.asBool := by
  refine reading_unmarkDeep "as_bool" ?_
  obtain ⟨m, c⟩ := v
  cases c <;> simp only [unmarkDeep, bare, content]

theorem size_unmarkDeep (v : Value) : v.unmarkDeep.size = v.unmark.size := by
  refine reading_unmarkDeep "length_int" ?_
  obtain ⟨m, c⟩ := v
  cases c <;> simp only [unmarkDeep, bare, content, size?, unmarkDeepAll_eq_map,
    unmarkDeepEntries_eq_mapValues, mapValues, List.length_map]

/-- Only the types of operands are checked. -/
theorem checkOperands_congr {operation : String} {wanted : Ty} {vs ws : List Value}
    (h : types vs = types ws) :
    checkOperands operation wanted vs = checkOperands operation wanted ws := by
  have search (us : List Value) : us.findIdx? (fun v => v.ty != .dynamic && v.ty != wanted) =
      (types us).findIdx? fun t => t != .dynamic && t != wanted := by
    rw [types_eq_map, List.findIdx?_map]
    rfl
  rw [checkOperands, checkOperands, search, search, h]

theorem checkOperands_unmarkDeep (operation : String) (wanted : Ty) (vs : List Value) :
    checkOperands operation wanted (vs.map unmarkDeep) =
      checkOperands operation wanted (vs.map unmark) := by
  apply checkOperands_congr
  simp only [types_eq_map, List.map_map, Function.comp_def, ty_unmarkDeep, ty_unmark]

theorem numberOperand_unmarkDeep (operation : String) (v : Value) :
    numberOperand operation v.unmarkDeep = numberOperand operation v.unmark := by
  rw [numberOperand, numberOperand, number?_unmarkDeep]

theorem boolOperand?_unmarkDeep (operation : String) (v : Value) :
    boolOperand? operation v.unmarkDeep = boolOperand? operation v.unmark := by
  simp only [boolOperand?, isKnown_unmarkDeep, isNull_unmarkDeep, asBool_unmarkDeep,
    isKnown_unmark, isNull_unmark]

theorem arithmetic_unmarkDeep (operation : String)
    (between : Refinement → Refinement → Except Fault Value)
    (compute : Number → Number → Option Number) (a b : Value) :
    arithmetic operation between compute a.unmarkDeep b.unmarkDeep =
      arithmetic operation between compute a.unmark b.unmark := by
  have check := checkOperands_unmarkDeep operation .number [a, b]
  simp only [List.map_cons, List.map_nil] at check
  simp only [arithmetic, check, ty_unmarkDeep, ty_unmark, isKnown_unmarkDeep, isKnown_unmark,
    range_unmarkDeep, numberOperand_unmarkDeep]

theorem arithmeticUnary_unmarkDeep (operation : String)
    (between : Refinement → Except Fault Value) (compute : Number → Number) (a : Value) :
    arithmeticUnary operation between compute a.unmarkDeep =
      arithmeticUnary operation between compute a.unmark := by
  have check := checkOperands_unmarkDeep operation .number [a]
  simp only [List.map_cons, List.map_nil] at check
  simp only [arithmeticUnary, check, ty_unmarkDeep, ty_unmark, isKnown_unmarkDeep, isKnown_unmark,
    range_unmarkDeep, numberOperand_unmarkDeep]

theorem comparison_unmarkDeep (operation : String) (orEqual : Bool) (a b : Value) :
    comparison operation orEqual a.unmarkDeep b.unmarkDeep =
      comparison operation orEqual a.unmark b.unmark := by
  have check := checkOperands_unmarkDeep operation .number [a, b]
  simp only [List.map_cons, List.map_nil] at check
  simp only [comparison, check, ty_unmarkDeep, ty_unmark, isKnown_unmarkDeep, isKnown_unmark,
    range_unmarkDeep, numberOperand_unmarkDeep]

theorem logic_unmarkDeep (operation : String) (absorbing : Bool) (a b : Value) :
    logic operation absorbing a.unmarkDeep b.unmarkDeep =
      logic operation absorbing a.unmark b.unmark := by
  have check := checkOperands_unmarkDeep operation .bool [a, b]
  simp only [List.map_cons, List.map_nil] at check
  simp only [logic, check, ty_unmarkDeep, ty_unmark, boolOperand?_unmarkDeep]

theorem lengthBare_unmarkDeep (a : Value) : a.unmarkDeep.lengthBare = a.unmark.lengthBare := by
  simp only [lengthBare, ty_unmarkDeep, ty_unmark, isKnown_unmarkDeep, isKnown_unmark,
    (isWhollyKnown_unmarkDeep a).1, isWhollyKnown_unmark, range_unmarkDeep, size_unmarkDeep]

/-! ## Answers without marks -/

theorem unmarked_null (t : Ty) : (null t).containsMarked = false := by
  simp only [null, bare, containsMarked]
  rfl

theorem unmarked_refined (t : Ty) (r : Refinement) : (refined t r).containsMarked = false := by
  simp only [refined, bare, containsMarked]
  rfl

theorem unmarked_unknown (t : Ty) : (unknown t).containsMarked = false :=
  unmarked_refined t _

theorem unmarked_number (n : Number) : (number n).containsMarked = false := by
  simp only [number, bare, containsMarked]
  rfl

theorem unmarked_bool (b : Bool) : (bool b).containsMarked = false := by
  simp only [bool, bare, containsMarked]
  rfl

theorem anyContainsMarked_eq_false {vs : List Value} :
    anyContainsMarked vs = false ↔ ∀ v ∈ vs, v.containsMarked = false := by
  induction vs with
  | nil => simp [anyContainsMarked]
  | cons v vs ih => rw [anyContainsMarked, Bool.or_eq_false_iff, ih, List.forall_mem_cons]

theorem anyEntryContainsMarked_eq_false {entries : List (String × Value)} :
    anyEntryContainsMarked entries = false ↔ ∀ v ∈ values entries, v.containsMarked = false := by
  induction entries with
  | nil => simp [anyEntryContainsMarked]
  | cons entry entries ih =>
    rw [anyEntryContainsMarked, Bool.or_eq_false_iff, ih, values_cons, List.forall_mem_cons]

theorem unmarked_only {t : Ty} (h : Refining.Only t v) : v.containsMarked = false := by
  cases h with
  | null => exact unmarked_null t
  | number n => exact unmarked_number n
  | list e n =>
    have items : anyContainsMarked (List.replicate n (unknown e)) = false := by
      refine anyContainsMarked_eq_false.2 fun v hv => ?_
      rw [List.eq_of_mem_replicate hv]
      exact unmarked_unknown e
    simp only [bare, containsMarked, items]
    rfl
  | emptySet | set =>
    simp only [bare, containsMarked]
    rfl
  | map =>
    simp only [bare, containsMarked, anyEntryContainsMarked]
    rfl

theorem unmarked_told {t : Ty} (h : Refining.Told t v) : v.containsMarked = false := by
  cases h with
  | untold => exact unmarked_unknown t
  | only h => exact unmarked_only h
  | narrowed => exact unmarked_refined t _

theorem IsNumeric.unmarked (h : v.IsNumeric) : v.containsMarked = false := by
  cases h with
  | number n => exact unmarked_number n
  | dynamic => exact unmarked_unknown _
  | told h => exact unmarked_told h

theorem IsVerdict.unmarked (h : v.IsVerdict) : v.containsMarked = false := by
  cases h with
  | bool b => exact unmarked_bool b
  | undecided => exact unmarked_refined _ _

/-! ## Parts as answers -/

@[simp] theorem content_unmark (v : Value) : v.unmark.content = v.content :=
  rfl

theorem getElem?_unmarkDeepAll (items : List Value) (i : Nat) :
    (unmarkDeepAll items)[i]? = items[i]?.map unmarkDeep := by
  rw [unmarkDeepAll_eq_map, List.getElem?_map]

theorem lookup_unmarkDeepEntries (name : String) (entries : List (String × Value)) :
    (unmarkDeepEntries entries).lookup name = (entries.lookup name).map unmarkDeep := by
  rw [unmarkDeepEntries_eq_mapValues, lookup_mapValues]

/-- What is unknown or null has no marks to lose. -/
theorem clean_unknown (t : Ty) : (unknown t).unmarkDeep = unknown t :=
  (unmarkDeep_of_unmarked (unmarked_unknown t)).1

theorem clean_null (t : Ty) : (null t).unmarkDeep = null t :=
  (unmarkDeep_of_unmarked (unmarked_null t)).1

theorem attributeBare_unmarkDeep (a : Value) (name : String) :
    (a.unmark.attributeBare name).map unmarkDeep = a.unmarkDeep.attributeBare name := by
  rw [attributeBare, attributeBare, ty_unmarkDeep, ty_unmark]
  split
  · exact congrArg Except.ok (clean_unknown _)
  · rfl
  · obtain ⟨m, c⟩ := a
    cases c with
    | unknown => simp only [unmarkDeep, unmark, bare, content, Except.map, clean_unknown]
    | object attributes =>
      simp only [unmarkDeep, unmark, bare, content, lookup_unmarkDeepEntries]
      cases attributes.lookup name <;> rfl
    | union variants variant inner =>
      simp only [unmarkDeep, unmark, bare, content, Except.map]
      split
      · rfl
      · rw [clean_null]
    | _ =>
      simp only [unmarkDeep, unmark, bare, content]
      rfl

theorem itemAt_unmarkDeep (t : Ty) (a : Value) (n : Number) :
    (itemAt t a.content n).map unmarkDeep = itemAt t a.unmarkDeep.content n := by
  obtain ⟨m, c⟩ := a
  cases c with
  | list | tuple =>
    simp only [unmarkDeep, bare, content, itemAt, getElem?_unmarkDeepAll]
    cases n.toWord? with
    | none => rfl
    | some i =>
      simp only [Option.bind_some]
      cases (_ : List Value)[i]? <;> rfl
  | _ =>
    simp only [unmarkDeep, bare, content, itemAt]
    rfl

theorem indexBare_unmarkDeep_left (a key : Value) :
    (a.unmark.indexBare key).map unmarkDeep = a.unmarkDeep.indexBare key := by
  simp only [indexBare, ty_unmarkDeep, ty_unmark, isKnown_unmarkDeep, isKnown_unmark,
    content_unmark]
  split
  · exact congrArg Except.ok (clean_unknown _)
  split
  · rfl
  split
  · split
    · split
      · exact itemAt_unmarkDeep _ a _
      · exact congrArg Except.ok (clean_unknown _)
    · split
      · exact congrArg Except.ok (clean_unknown _)
      · rfl
  · split
    · split
      · rfl
      split
      · rfl
      split
      · exact itemAt_unmarkDeep _ a _
      · exact congrArg Except.ok (clean_unknown _)
    · split
      · exact congrArg Except.ok (clean_unknown _)
      · rfl
  · split
    · rename_i k _
      obtain ⟨m, c⟩ := a
      cases c with
      | unknown => simp only [unmarkDeep, bare, content, Except.map, clean_unknown]
      | map e entries =>
        simp only [unmarkDeep, bare, content, lookup_unmarkDeepEntries]
        cases entries.lookup k <;> rfl
      | _ =>
        simp only [unmarkDeep, bare, content]
        rfl
    · split
      · exact congrArg Except.ok (clean_unknown _)
      · rfl
  · rfl

theorem indexBare_unmarkDeep_right (a key : Value) :
    a.indexBare key.unmarkDeep = a.indexBare key.unmark := by
  simp only [indexBare, ty_unmarkDeep, ty_unmark, isNull_unmarkDeep, isNull_unmark,
    content_unmark]
  obtain ⟨m, c⟩ := key
  cases c <;> simp only [unmarkDeep, bare, content]

theorem hasIndexBare_unmarkDeep_left (a key : Value) :
    a.unmarkDeep.hasIndexBare key = a.unmark.hasIndexBare key := by
  simp only [hasIndexBare, ty_unmarkDeep, ty_unmark, content_unmark]
  split
  · rfl
  split
  · rename_i typed
    split
    · rfl
    split
    · rfl
    · rename_i n _
      cases n.toWord? with
      | none => rfl
      | some i =>
        simp only [typed]
        obtain ⟨m, c⟩ := a
        cases c <;> simp only [unmarkDeep, bare, content, unmarkDeepAll_eq_map, List.length_map]
    · rfl
  · rename_i typed
    split
    · rfl
    split
    · rfl
    · rename_i n _
      cases n.toWord? with
      | none => rfl
      | some i => simp only [typed]
    · rfl
  · split
    · rfl
    obtain ⟨m, c⟩ := a
    cases c <;> cases key.content <;> simp only [unmarkDeep, bare, content, Entries.contains,
      lookup_unmarkDeepEntries, Option.isSome_map]
  · rfl

theorem hasIndexBare_unmarkDeep_right (a key : Value) :
    a.hasIndexBare key.unmarkDeep = a.hasIndexBare key.unmark := by
  simp only [hasIndexBare, ty_unmarkDeep, ty_unmark, content_unmark]
  split
  · rfl
  obtain ⟨m, c⟩ := key
  cases c <;> cases a.content <;> simp only [unmarkDeep, bare, content]

/-! ## Equality and membership -/

mutual

/-- A value has marks inside of it if it contains a marked value. -/
theorem isEmpty_deepMarks : ∀ v : Value, v.deepMarks.isEmpty = !v.containsMarked
  | ⟨_, .null _⟩ | ⟨_, .unknown _ _⟩ | ⟨_, .number _⟩ | ⟨_, .string _⟩ | ⟨_, .bool _⟩
  | ⟨_, .set _ _⟩ | ⟨_, .capsule _ _⟩ => by
    simp only [deepMarks, containsMarked, Bool.or_false, Bool.not_not]
  | ⟨_, .list _ items⟩ | ⟨_, .tuple items⟩ => by
    simp only [deepMarks, containsMarked, MarkSet.isEmpty_union, isEmpty_deepMarksAll items,
      Bool.not_or, Bool.not_not]
  | ⟨_, .map _ entries⟩ | ⟨_, .object entries⟩ => by
    simp only [deepMarks, containsMarked, MarkSet.isEmpty_union, isEmpty_deepMarksEntries entries,
      Bool.not_or, Bool.not_not]
  | ⟨_, .union _ _ inner⟩ => by
    simp only [deepMarks, containsMarked, MarkSet.isEmpty_union, isEmpty_deepMarks inner,
      Bool.not_or, Bool.not_not]

theorem isEmpty_deepMarksAll : ∀ vs : List Value, (deepMarksAll vs).isEmpty = !anyContainsMarked vs
  | [] => rfl
  | v :: vs => by
    simp only [deepMarksAll, anyContainsMarked, MarkSet.isEmpty_union, isEmpty_deepMarks v,
      isEmpty_deepMarksAll vs, Bool.not_or]

theorem isEmpty_deepMarksEntries : ∀ entries : List (String × Value),
    (deepMarksEntries entries).isEmpty = !anyEntryContainsMarked entries
  | [] => rfl
  | (_, v) :: entries => by
    simp only [deepMarksEntries, anyEntryContainsMarked, MarkSet.isEmpty_union, isEmpty_deepMarks v,
      isEmpty_deepMarksEntries entries, Bool.not_or]

end

variable [Host]

theorem unmarked_equalsBare (quiet : Host.AnswersUnmarked) (a b : Value) :
    (equalsBare a b).containsMarked = false := by
  rcases equalsBare_answer a b with verdict | ⟨c, p, q, answer⟩
  · exact verdict.unmarked
  · rw [answer]
    exact quiet c p q

theorem hasElementBare_unmarkDeep (a e : Value) :
    a.unmarkDeep.hasElementBare e = a.hasElementBare e := by
  rw [hasElementBare, hasElementBare, ty_unmarkDeep, isKnown_unmarkDeep]
  obtain ⟨m, c⟩ := a
  cases c <;> simp only [unmarkDeep, bare, content]

theorem hasElementBare_unmark (a e : Value) : a.unmark.hasElementBare e = a.hasElementBare e := by
  rw [← hasElementBare_unmarkDeep, unmarkDeep_unmark, hasElementBare_unmarkDeep]

/-- An element with marks inside of it is not found. -/
theorem foundIn_of_marked {e : Value} (h : e.containsMarked = true) (items : List Value) :
    foundIn e items = false := by
  have marked : e.deepMarks.isEmpty = false := by rw [isEmpty_deepMarks, h]; rfl
  have unsure (x : Value) : (x.equals e).isKnownTrue = false := by
    rw [equals]
    obtain ⟨m, c⟩ := equalsBare x.unmarkDeep e.unmarkDeep
    cases c <;> simp [isKnownTrue, isKnownBool, withMarks, marks, content, marked]
  simp only [foundIn, unsure, Bool.and_false, List.any_eq_false]
  simp

/-- Membership of an element with marks inside of it alone. What would be found without the marks is
told to be absent, or left open where something is not wholly known. -/
theorem hasElement_of_hidden {a e : Value} (ha : a.isMarked = false) (he : e.isMarked = false)
    (hidden : e.containsMarked = true) :
    a.hasElement e = (a.unmarkDeep.hasElement e.unmarkDeep).map fun answer =>
      if answer.isKnownTrue then
        if a.isWhollyKnown && e.isWhollyKnown then bool false else undecided
      else answer := by
  have clean (v : Value) : v.unmarkDeep.isMarked = false := by
    rw [isMarked, marks_unmarkDeep]
    rfl
  simp only [hasElement, ha, he, clean, Bool.or_self, Bool.false_eq_true, if_false,
    hasElementBare_unmarkDeep]
  rw [hasElementBare, hasElementBare, ty_unmarkDeep, isKnown_unmarkDeep,
    (isWhollyKnown_unmarkDeep e).1]
  split
  · split
    · rfl
    split
    · rfl
    split
    · rename_i items hc
      have known : a.isWhollyKnown = allWhollyKnown items := by
        obtain ⟨m, c⟩ := a
        cases hc
        rw [isWhollyKnown]
      rw [foundIn_of_marked hidden, known]
      cases foundIn e.unmarkDeep items <;> cases allWhollyKnown items <;>
        cases e.isWhollyKnown <;> rfl
    · rfl
  · rfl

/-! ## Marks of answers -/

/-- An operation fails as it does without marks, and where it answers, the answer is the same apart
from marks and has the marks that it has to have. -/
structure Faithful (answer clean : Except Fault Value) (carried : MarkSet) : Prop where
  same : answer.map unmarkDeep = clean
  marked : ∀ w, answer = .ok w → carried ⊆ w.marks

omit [Host] in
theorem map_unmarkDeep {answer : Except Fault Value}
    (plain : ∀ w, answer = .ok w → w.containsMarked = false) : answer.map unmarkDeep = answer := by
  cases answer with
  | error => rfl
  | ok w => exact congrArg Except.ok (unmarkDeep_of_unmarked (plain w rfl)).1

omit [Host] in
theorem subset_marks (m n : MarkSet) : m.union n ⊆ ((w.withMarks m).withMarks n).marks :=
  MarkSet.union_subset
    (MarkSet.subset_trans MarkSet.subset_union_right MarkSet.subset_union_left)
    MarkSet.subset_union_right

omit [Host] in
theorem faithful_marking {f : Value → Except Fault Value}
    (h : (f a.unmark).map unmarkDeep = f a.unmarkDeep) :
    Faithful (marking f a) (marking f a.unmarkDeep) a.marks where
  same := by
    rw [marking, marking, unmark_unmarkDeep, marks_unmarkDeep, ← h]
    cases f a.unmark <;> simp only [Except.map, unmarkDeep_withMarks, withMarks_empty]
  marked w hw := by
    obtain ⟨v, -, rfl⟩ := ValueAlgebra.map_eq_ok hw
    exact MarkSet.subset_union_right

omit [Host] in
theorem faithful_markingBoth {f : Value → Value → Except Fault Value}
    (h : (f a.unmark b.unmark).map unmarkDeep = f a.unmarkDeep b.unmarkDeep) :
    Faithful (markingBoth f a b) (markingBoth f a.unmarkDeep b.unmarkDeep)
      (a.marks.union b.marks) where
  same := by
    rw [markingBoth, markingBoth, unmark_unmarkDeep, unmark_unmarkDeep, marks_unmarkDeep,
      marks_unmarkDeep, ← h]
    cases f a.unmark b.unmark <;> simp only [Except.map, unmarkDeep_withMarks, withMarks_empty]
  marked w hw := by
    obtain ⟨v, -, rfl⟩ := ValueAlgebra.map_eq_ok hw
    exact subset_marks _ _

omit [Host] in
theorem faithful_arithmetic {operation : String}
    {between : Refinement → Refinement → Except Fault Value}
    (compute : Number → Number → Option Number)
    (hb : ∀ r s w, between r s = .ok w → Refining.Told .number w) (a b : Value) :
    Faithful (markingBoth (arithmetic operation between compute) a b)
      (markingBoth (arithmetic operation between compute) a.unmarkDeep b.unmarkDeep)
      (a.marks.union b.marks) := by
  apply faithful_markingBoth
  rw [arithmetic_unmarkDeep, map_unmarkDeep fun w hw => (isNumeric_arithmetic hb hw).unmarked]

omit [Host] in
theorem faithful_arithmeticUnary {operation : String} {between : Refinement → Except Fault Value}
    (compute : Number → Number) (hb : ∀ r w, between r = .ok w → Refining.Told .number w)
    (a : Value) :
    Faithful (marking (arithmeticUnary operation between compute) a)
      (marking (arithmeticUnary operation between compute) a.unmarkDeep) a.marks := by
  apply faithful_marking
  rw [arithmeticUnary_unmarkDeep,
    map_unmarkDeep fun w hw => (isNumeric_arithmeticUnary hb hw).unmarked]

omit [Host] in
theorem comparison_clean (operation : String) (orEqual : Bool) (a b : Value) :
    (comparison operation orEqual a.unmark b.unmark).map unmarkDeep =
      comparison operation orEqual a.unmarkDeep b.unmarkDeep := by
  rw [comparison_unmarkDeep, map_unmarkDeep fun w hw => (isVerdict_comparison hw).unmarked]

omit [Host] in
theorem logic_clean (operation : String) (absorbing : Bool) (a b : Value) :
    (logic operation absorbing a.unmark b.unmark).map unmarkDeep =
      logic operation absorbing a.unmarkDeep b.unmarkDeep := by
  rw [logic_unmarkDeep, map_unmarkDeep fun w hw => (isVerdict_logic hw).unmarked]

omit [Host] in
theorem faithful_not (a : Value) : Faithful a.not a.unmarkDeep.not a.marks := by
  have check := checkOperands_unmarkDeep "not" .bool [a]
  simp only [List.map_cons, List.map_nil] at check
  apply faithful_marking
  simp only [check, ty_unmarkDeep, ty_unmark, boolOperand?_unmarkDeep]
  refine map_unmarkDeep fun w hw => ?_
  have answer : a.unmark.not = .ok w := by
    rw [← withMarks_empty w, Value.not, marking]
    simp only [ty_unmark]
    exact congrArg (Except.map fun v => v.withMarks .empty) hw
  obtain ⟨v, verdict, rfl⟩ := isVerdict_not answer
  exact (withMarks_empty v).symm ▸ verdict.unmarked

omit [Host] in
theorem faithful_index (a b : Value) :
    Faithful (a.index b) (a.unmarkDeep.index b.unmarkDeep) (a.marks.union b.marks) :=
  faithful_markingBoth
    ((indexBare_unmarkDeep_left a b.unmark).trans (indexBare_unmarkDeep_right _ b).symm)

omit [Host] in
theorem faithful_hasIndex (a b : Value) :
    Faithful (a.hasIndex b) (a.unmarkDeep.hasIndex b.unmarkDeep) (a.marks.union b.marks) := by
  refine faithful_markingBoth (f := hasIndexBare) ?_
  rw [hasIndexBare_unmarkDeep_left, hasIndexBare_unmarkDeep_right,
    map_unmarkDeep fun w hw => (isVerdict_hasIndexBare hw).unmarked]

theorem unmarkDeep_equals (quiet : Host.AnswersUnmarked) (a b : Value) :
    (a.equals b).unmarkDeep = a.unmarkDeep.equals b.unmarkDeep := by
  rw [equals_of_unmarked (containsMarked_unmarkDeep a) (containsMarked_unmarkDeep b), equals,
    unmarkDeep_withMarks, unmarkDeep_withMarks,
    (unmarkDeep_of_unmarked (unmarked_equalsBare quiet _ _)).1]

theorem faithful_notEqual (quiet : Host.AnswersUnmarked) (a b : Value) :
    Faithful (a.notEqual b) (a.unmarkDeep.notEqual b.unmarkDeep)
      (a.deepMarks.union b.deepMarks) where
  same := by
    rw [notEqual, notEqual, ← unmarkDeep_equals quiet]
    exact (faithful_not (a.equals b)).same
  marked w hw :=
    MarkSet.subset_trans (subset_marks _ _) ((faithful_not (a.equals b)).marked w hw)

theorem faithful_hasElement {a e : Value}
    (visible : e.containsMarked = true → a.isMarked = true ∨ e.isMarked = true) :
    Faithful (a.hasElement e) (a.unmarkDeep.hasElement e.unmarkDeep)
      (a.marks.union e.deepMarks) := by
  have clean (v : Value) : v.unmarkDeep.isMarked = false := by
    rw [isMarked, marks_unmarkDeep]
    rfl
  have answer : a.hasElement e = (a.hasElementBare e.unmarkDeep).map fun answer =>
      (answer.withMarks a.marks).withMarks e.deepMarks := by
    rw [hasElement, hasElementBare_unmark]
    split
    · rfl
    · rename_i unmarked
      have unmarked : a.isMarked = false ∧ e.isMarked = false := by simpa using unmarked
      have whole : e.containsMarked = false := by
        rw [← Bool.not_eq_true]
        intro marked
        simpa [unmarked] using visible marked
      have ha : a.marks = .empty := MarkSet.eq_empty (by simpa [isMarked] using unmarked.1)
      obtain ⟨same, none⟩ := unmarkDeep_of_unmarked whole
      rw [same, none, ha]
      cases a.hasElementBare e <;> simp only [Except.map, withMarks_empty]
  refine ⟨?_, fun w hw => ?_⟩
  · rw [answer]
    simp only [hasElement, clean, Bool.or_self, Bool.false_eq_true, if_false,
      hasElementBare_unmarkDeep]
    cases h : a.hasElementBare e.unmarkDeep with
    | error => rfl
    | ok v =>
      simp only [Except.map, unmarkDeep_withMarks,
        (unmarkDeep_of_unmarked (isVerdict_hasElementBare h).unmarked).1]
  · rw [answer] at hw
    obtain ⟨v, -, rfl⟩ := ValueAlgebra.map_eq_ok hw
    exact subset_marks _ _

end Value

namespace Operation

open Value

section

variable [Host]

omit [Host] in
theorem faithful_unary (op : UnaryOperation) (a : Value) :
    Faithful (op.apply a) (op.apply a.unmarkDeep) a.marks := by
  cases op with
  | negate => exact faithful_arithmeticUnary _ (fun _ _ => told_numberBetween) a
  | absolute => exact faithful_arithmeticUnary _ (fun _ _ => told_numberBetween) a
  | not => exact faithful_not a
  | length =>
    refine faithful_marking (f := lengthBare) ?_
    rw [lengthBare_unmarkDeep, map_unmarkDeep fun w hw => (isNumeric_lengthBare hw).unmarked]
  | attr name =>
    exact faithful_marking (f := (·.attributeBare name)) (attributeBare_unmarkDeep a name)

/-- Operations other than membership fail, and answer, as they do without marks. -/
theorem faithful_binary (quiet : Host.AnswersUnmarked) (op : BinaryOperation) (a b : Value)
    (visible : (Operation.binary op a b).Visible) :
    Faithful (op.apply a b) (op.apply a.unmarkDeep b.unmarkDeep)
      (Operation.binary op a b).carried := by
  cases op with
  | add => exact faithful_arithmetic _ (fun _ _ _ => told_numberBetween) a b
  | subtract => exact faithful_arithmetic _ (fun _ _ _ => told_numberBetween) a b
  | multiply => exact faithful_arithmetic _ (fun _ _ _ => told_numberBetween) a b
  | divide => exact faithful_arithmetic _ (fun _ _ _ => told_numberBetween) a b
  | modulo => exact faithful_arithmetic _ (fun _ _ _ => told_numberBetween) a b
  | lessThan => exact faithful_markingBoth (comparison_clean _ _ a b)
  | greaterThan =>
    exact faithful_markingBoth (f := fun a b => comparison _ _ b a) (comparison_clean _ _ b a)
  | lessThanOrEqual => exact faithful_markingBoth (comparison_clean _ _ a b)
  | greaterThanOrEqual =>
    exact faithful_markingBoth (f := fun a b => comparison _ _ b a) (comparison_clean _ _ b a)
  | and => exact faithful_markingBoth (logic_clean _ _ a b)
  | or => exact faithful_markingBoth (logic_clean _ _ a b)
  | equals =>
    refine ⟨congrArg Except.ok (unmarkDeep_equals quiet a b), fun w hw => ?_⟩
    cases hw
    exact subset_marks _ _
  | notEqual => exact faithful_notEqual quiet a b
  | index => exact faithful_index a b
  | hasIndex => exact faithful_hasIndex a b
  | hasElement => exact faithful_hasElement visible

/--
Marks do not interfere with operations: where an operation fails without marks, it fails with them,
and where it answers, the answer is the same apart from marks and has the marks of the operands.
Where marks are hidden inside of an element that is looked for, the element counts as absent, or as
open, instead of present.
-/
theorem marks_do_not_interfere (quiet : Host.AnswersUnmarked) (op : Operation) :
    (op.Visible → op.answer.map Value.unmarkDeep = op.unmarkDeep.answer ∧
      ∀ w, op.answer = .ok w → op.carried ⊆ w.marks) ∧
    (¬ op.Visible → ∃ a e : Value, op = .binary .hasElement a e ∧
      op.answer = op.unmarkDeep.answer.map fun answer =>
        if answer.isKnownTrue then
          if a.isWhollyKnown && e.isWhollyKnown then .bool false else .undecided
        else answer) := by
  cases op with
  | unary op a =>
    refine ⟨fun _ => ?_, fun hidden => absurd trivial hidden⟩
    obtain ⟨same, marked⟩ := faithful_unary op a
    exact ⟨same, marked⟩
  | binary op a b =>
    refine ⟨fun visible => ?_, fun hidden => ?_⟩
    · obtain ⟨same, marked⟩ := faithful_binary quiet op a b visible
      exact ⟨same, marked⟩
    · cases op with
      | hasElement =>
        simp only [Visible, Classical.not_imp, not_or, Bool.not_eq_true] at hidden
        exact ⟨a, b, rfl, hasElement_of_hidden hidden.2.1 hidden.2.2 hidden.1⟩
      | _ => exact absurd trivial hidden

end

/-- A sum with a marked operand. -/
theorem marks_do_not_interfere_sum :
    letI := Host.plain
    let op := Operation.binary .add ((Value.ofNat 1).withMarks (.ofList ["m"])) (.ofNat 2)
    Host.AnswersUnmarked ∧ op.Visible ∧
      ∃ w, op.answer = .ok w ∧ w.unmarkDeep = .ofNat 3 ∧ "m" ∈ w.marks := by
  let := Host.plain
  intro op
  have quiet : Host.AnswersUnmarked := fun c p q => unmarked_bool _
  obtain ⟨same, carried⟩ := (marks_do_not_interfere quiet op).1 trivial
  have clean : op.unmarkDeep.answer = .ok (.ofNat 3) := by cbv
  rw [clean] at same
  obtain ⟨w, answer, eq⟩ := ValueAlgebra.map_eq_ok same
  exact ⟨quiet, trivial, w, answer, eq, carried w answer "m" (by decide)⟩

/-- A set with the list of one text. -/
def setOfTexts : Value :=
  .bare (.set (.list .string) [.bare (.list .string [.bare (.string "x")])])

/-- The list of the same text, which is marked inside of the list. -/
def markedInside : Value :=
  .bare (.list .string [⟨.ofList ["m"], .string "x"⟩])

/-- A set does not find an element whose marks are inside of it, and does not pass them on. -/
theorem hasElement_loses_marks :
    letI := Host.plain
    setOfTexts.hasElement markedInside = .ok (.bool false) ∧
      setOfTexts.hasElement markedInside.unmarkDeep = .ok (.bool true) ∧
      "m" ∈ markedInside.deepMarks ∧ "m" ∉ (Value.bool false).marks := by
  refine ⟨by cbv, by cbv, by decide, by decide⟩

end Operation

end ValueAlgebra
