import FilterLang.Expr.Node
import FilterLang.Proofs.ExprNodes
import Mathlib.Logic.Relation

/-!
# Structure that a text does not show

A text says nothing about identities, absent children, groups inside groups, groups of
one, and the place in which a moment was given.  It does not tell apart the nodes that
have nothing to show either: operators that lack an operand and groups without children.

A change of any of these may be made at any node.  The node stays present, which is what
its parent asks for: an operator is shown if all its operands are present, whatever they
show themselves.
-/

namespace FilterLang
namespace Expr

variable {Op : Type}

/-- Nodes with nothing to show: an operator that lacks an operand, or a group whose
children are all absent. -/
inductive IsVacant : Expr Op → Prop
  | group (id : String) {children : List (Option (Expr Op))}
      (h : ∀ child ∈ children, child = none) : IsVacant (group id children)
  | binary (id : String) (op : Op) {lhs rhs : Option (Expr Op)} (h : lhs = none ∨ rhs = none) :
      IsVacant (binary id op lhs rhs)
  | unary (id : String) (op : Op) : IsVacant (unary id op none)
  | ternary (id : String) (op : Op) {lhs rhs rhs2 : Option (Expr Op)}
      (h : lhs = none ∨ rhs = none ∨ rhs2 = none) : IsVacant (ternary id op lhs rhs rhs2)

/-- A change of a node that no text shows. -/
inductive HiddenEdit : Expr Op → Expr Op → Prop
  | withId (id : String) (e : Expr Op) : HiddenEdit e (e.withId id)
  | dropAbsent (id : String) (before after : List (Option (Expr Op))) :
      HiddenEdit (group id (before ++ none :: after)) (group id (before ++ after))
  | splice (id inner : String) (before children after : List (Option (Expr Op))) :
      HiddenEdit (group id (before ++ some (group inner children) :: after))
        (group id (before ++ children ++ after))
  | unwrap (id : String) (e : Expr Op) : HiddenEdit (group id [some e]) e
  | vacant {e e' : Expr Op} (h : e.IsVacant) (h' : e'.IsVacant) : HiddenEdit e e'
  | relocate (id : String) (m m' : Calendar.Moment) (h : m.instant = m'.instant) :
      HiddenEdit (time id m) (time id m')

/-- A hidden change at one node of a tree: at the root, or in an operand or child, which
is present before and after it. -/
inductive HiddenEditWithin : Expr Op → Expr Op → Prop
  | root {e e' : Expr Op} (h : HiddenEdit e e') : HiddenEditWithin e e'
  | child (id : String) (before after : List (Option (Expr Op))) {e e' : Expr Op}
      (h : HiddenEditWithin e e') :
      HiddenEditWithin (group id (before ++ some e :: after))
        (group id (before ++ some e' :: after))
  | binaryLhs (id : String) (op : Op) (rhs : Option (Expr Op)) {e e' : Expr Op}
      (h : HiddenEditWithin e e') :
      HiddenEditWithin (binary id op (some e) rhs) (binary id op (some e') rhs)
  | binaryRhs (id : String) (op : Op) (lhs : Option (Expr Op)) {e e' : Expr Op}
      (h : HiddenEditWithin e e') :
      HiddenEditWithin (binary id op lhs (some e)) (binary id op lhs (some e'))
  | operand (id : String) (op : Op) {e e' : Expr Op} (h : HiddenEditWithin e e') :
      HiddenEditWithin (unary id op (some e)) (unary id op (some e'))
  | ternaryLhs (id : String) (op : Op) (rhs rhs2 : Option (Expr Op)) {e e' : Expr Op}
      (h : HiddenEditWithin e e') :
      HiddenEditWithin (ternary id op (some e) rhs rhs2) (ternary id op (some e') rhs rhs2)
  | ternaryRhs (id : String) (op : Op) (lhs rhs2 : Option (Expr Op)) {e e' : Expr Op}
      (h : HiddenEditWithin e e') :
      HiddenEditWithin (ternary id op lhs (some e) rhs2) (ternary id op lhs (some e') rhs2)
  | ternaryRhs2 (id : String) (op : Op) (lhs rhs : Option (Expr Op)) {e e' : Expr Op}
      (h : HiddenEditWithin e e') :
      HiddenEditWithin (ternary id op lhs rhs (some e)) (ternary id op lhs rhs (some e'))

/-- Trees that hidden changes lead from one to the other, each made or taken back. -/
def SameShown : Expr Op → Expr Op → Prop :=
  Relation.EqvGen HiddenEditWithin

variable [CanonicalText Op]

/-! ## Texts of nodes from texts of operands -/

theorem text_binary (id : String) (op : Op) (lhs rhs : Option (Expr Op)) :
    (binary id op lhs rhs).text =
      ((lhs.map text).bind fun l => (rhs.map text).map fun r =>
        l ++ ' ' :: CanonicalText.text op ++ ' ' :: r).getD [] := by
  cases lhs with
  | none => rfl
  | some lhs => cases rhs <;> rfl

theorem text_unary (id : String) (op : Op) (operand : Option (Expr Op)) :
    (unary id op operand).text =
      ((operand.map text).map fun x => CanonicalText.text op ++ ' ' :: x).getD [] := by
  cases operand <;> rfl

theorem text_ternary (id : String) (op : Op) (lhs rhs rhs2 : Option (Expr Op)) :
    (ternary id op lhs rhs rhs2).text =
      ((lhs.map text).bind fun l => (rhs.map text).bind fun r => (rhs2.map text).map fun r2 =>
        l ++ ' ' :: CanonicalText.text op ++ ' ' :: r ++ ' ' :: r2).getD [] := by
  cases lhs with
  | none => rfl
  | some lhs =>
      cases rhs with
      | none => rfl
      | some rhs => cases rhs2 <;> rfl

theorem text_withId (id : String) (e : Expr Op) : (e.withId id).text = e.text := by
  cases e with
  | binary => rw [withId, text_binary, text_binary]
  | unary => rw [withId, text_unary, text_unary]
  | ternary => rw [withId, text_ternary, text_ternary]
  | _ => rfl

/-! ## Nodes with nothing to show -/

theorem childrenText_absent {children : List (Option (Expr Op))}
    (h : ∀ child ∈ children, child = none) : childrenText children = [] := by
  induction children with
  | nil => rfl
  | cons child children ih =>
      rw [List.forall_mem_cons] at h
      rw [h.1, childrenText, ih h.2]

theorem IsVacant.text_eq_nil {e : Expr Op} (h : e.IsVacant) : e.text = [] := by
  cases h with
  | group id h => exact childrenText_absent h
  | binary id op h =>
      rw [text_binary]
      rcases h with rfl | rfl <;> simp
  | unary id op => rfl
  | ternary id op h =>
      rw [text_ternary]
      rcases h with rfl | rfl | rfl <;> simp

/-- An operator whose operands are all present has a text, since it is parted from them
by spaces. -/
theorem isVacant_of_text_eq_nil {e : Expr Op} (hop : e.operator?.isSome) (h : e.text = []) :
    e.IsVacant := by
  cases e with
  | binary id op lhs rhs =>
      cases lhs with
      | none => exact .binary id op (Or.inl rfl)
      | some lhs =>
          cases rhs with
          | none => exact .binary id op (Or.inr rfl)
          | some rhs => simp [text] at h
  | unary id op operand =>
      cases operand with
      | none => exact .unary id op
      | some operand => simp [text] at h
  | ternary id op lhs rhs rhs2 =>
      cases lhs with
      | none => exact .ternary id op (Or.inl rfl)
      | some lhs =>
          cases rhs with
          | none => exact .ternary id op (Or.inr (Or.inl rfl))
          | some rhs =>
              cases rhs2 with
              | none => exact .ternary id op (Or.inr (Or.inr rfl))
              | some rhs2 => simp [text] at h
  | _ => cases hop

/-! ## Hidden changes -/

theorem HiddenEdit.text_eq {e e' : Expr Op} (h : HiddenEdit e e') : e.text = e'.text := by
  cases h with
  | withId id => exact (text_withId id e).symm
  | dropAbsent id before after =>
      rw [text, text, childrenText_append, childrenText_append, childrenText]
  | splice id inner before children after =>
      rw [text, text, childrenText_append, childrenText_append, childrenText_append, childrenText,
        text, List.append_assoc]
  | unwrap id => rw [text, childrenText, childrenText, List.append_nil]
  | vacant h h' => rw [h.text_eq_nil, h'.text_eq_nil]
  | relocate id m m' h => rw [text, text, h]

/-- The text around a node depends on its own text, and on nothing else of it. -/
theorem HiddenEditWithin.text_eq {e e' : Expr Op} (h : HiddenEditWithin e e') :
    e.text = e'.text := by
  induction h with
  | root h => exact h.text_eq
  | child id before after _ ih =>
      rw [text, text, childrenText_append, childrenText_append, childrenText, childrenText, ih]
  | binaryLhs id op rhs _ ih | binaryRhs id op lhs _ ih =>
      rw [text_binary, text_binary, Option.map_some, Option.map_some, ih]
  | operand id op _ ih => rw [text, text, ih]
  | ternaryLhs id op rhs rhs2 _ ih | ternaryRhs id op lhs rhs2 _ ih
  | ternaryRhs2 id op lhs rhs _ ih =>
      rw [text_ternary, text_ternary, Option.map_some, Option.map_some, ih]

theorem SameShown.text_eq {e e' : Expr Op} (h : SameShown e e') : e.text = e'.text := by
  induction h with
  | rel _ _ hedit => exact hedit.text_eq
  | refl _ => rfl
  | symm _ _ _ ih => exact ih.symm
  | trans _ _ _ _ _ ih ih' => exact ih.trans ih'

/-- Hidden changes keep the text, whatever the operators and however many changes there
are.  An operator has no text exactly if an operand is absent, so one that is present and
shows nothing is not a reason to show nothing. -/
theorem hidden_structure_is_not_rendered :
    (∀ e e' : Expr Op, SameShown e e' → e.render = e'.render) ∧
      ∀ e : Expr Op, e.operator?.isSome → (e.render = "" ↔ e.IsVacant) := by
  constructor
  · intro e e' h
    rw [render, render, h.text_eq]
  · intro e hop
    rw [render, String.ofList_eq_empty_iff]
    constructor
    · exact isVacant_of_text_eq_nil hop
    · exact IsVacant.text_eq_nil

/-- All kinds of changes below a negation, which is shown even over an empty group. -/
theorem hidden_structure_is_not_rendered_below_a_negation :
    (SameShown
        (unary "" (Token.keyword .not) (some (group "g" [none,
          some (unary "" (Token.symbol .minus) none),
          some (group "h" [some (time "t" ⟨⟨0, 0, by decide⟩, 0, by decide⟩)])])))
        (unary "n" (Token.keyword .not) (some (group "g" [some (group "" []),
          some (group "w" [some (time "t" ⟨⟨0, 0, by decide⟩, 7200, by decide⟩)])]))) ∧
      (unary "" (Token.keyword .not) (some (group "g" [none,
          some (unary "" (Token.symbol .minus) none),
          some (group "h" [some (time "t" ⟨⟨0, 0, by decide⟩, 0, by decide⟩)])]))).render =
        (unary "n" (Token.keyword .not) (some (group "g" [some (group "" []),
          some (group "w" [some (time "t" ⟨⟨0, 0, by decide⟩, 7200, by decide⟩)])]))).render) ∧
    (unary "" (Token.keyword .not) (some (group "" []))).render ≠ "" := by
  have hempty : (group "" [] : Expr Token).IsVacant := .group "" (by simp)
  have hedits : SameShown
      (unary "" (Token.keyword .not) (some (group "g" [none,
        some (unary "" (Token.symbol .minus) none),
        some (group "h" [some (time "t" ⟨⟨0, 0, by decide⟩, 0, by decide⟩)])])))
      (unary "n" (Token.keyword .not) (some (group "g" [some (group "" []),
        some (group "w" [some (time "t" ⟨⟨0, 0, by decide⟩, 7200, by decide⟩)])]))) := by
    -- The absent child goes, the vacant one is replaced, the group `h` is spliced; then the
    -- moment is moved and wrapped, and the root is renamed.
    refine .trans _ _ _ (.rel _ _ (.operand "" _ (.root (.dropAbsent "g" [] _)))) ?_
    refine .trans _ _ _ (.rel _ _ (.operand "" _ (.child "g" [] _
      (.root (.vacant (.unary "" _) hempty))))) ?_
    refine .trans _ _ _ (.rel _ _ (.operand "" _ (.root (.splice "g" "h"
      [some (group "" [])] _ [])))) ?_
    refine .trans _ _ _ (.rel _ _ (.operand "" _ (.child "g" [some (group "" [])] []
      (.root (.relocate "t" _ ⟨⟨0, 0, by decide⟩, 7200, by decide⟩ rfl))))) ?_
    refine .trans _ _ _ (.symm _ _ (.rel _ _ (.operand "" _ (.child "g" [some (group "" [])] []
      (.root (.unwrap "w" _)))))) ?_
    exact .rel _ _ (.root (.withId "n" _))
  refine ⟨⟨hedits, hidden_structure_is_not_rendered.1 _ _ hedits⟩, ?_⟩
  intro hnothing
  have hvacant := (hidden_structure_is_not_rendered.2 _ rfl).1 hnothing
  cases hvacant

end Expr
end FilterLang
