import FilterLang.Proofs.ExprNodes

/-!
# Trees with other literals

Number and time literals are the only nodes whose content may change on the way through
a text.  A tree takes new values for them if there is one for each number literal; there
is one for each time literal.
-/

namespace FilterLang
namespace Expr

variable {Op : Type}

mutual

/-- The tree with every number and time literal given a new value; none if a number has
none.  Shape, absent operands and children, and all other content stay. -/
def withLiterals? (f : String → Binary64 → Option Binary64)
    (g : Calendar.Moment → Calendar.Moment) : Expr Op → Option (Expr Op)
  | group id children => (childrenWithLiterals? f g children).map (group id)
  | binary id op lhs rhs => do
      return binary id op (← operandWithLiterals? f g lhs) (← operandWithLiterals? f g rhs)
  | unary id op operand => do return unary id op (← operandWithLiterals? f g operand)
  | ternary id op lhs rhs rhs2 => do
      return ternary id op (← operandWithLiterals? f g lhs) (← operandWithLiterals? f g rhs)
        (← operandWithLiterals? f g rhs2)
  | reference id name => some (reference id name)
  | number id value => (f id value).map (number id)
  | boolean id value => some (boolean id value)
  | string id value => some (string id value)
  | time id value => some (time id (g value))

def operandWithLiterals? (f : String → Binary64 → Option Binary64)
    (g : Calendar.Moment → Calendar.Moment) :
    Option (Expr Op) → Option (Option (Expr Op))
  | none => some none
  | some operand => (withLiterals? f g operand).map some

def childrenWithLiterals? (f : String → Binary64 → Option Binary64)
    (g : Calendar.Moment → Calendar.Moment) :
    List (Option (Expr Op)) → Option (List (Option (Expr Op)))
  | [] => some []
  | child :: children => do
      return (← operandWithLiterals? f g child) :: (← childrenWithLiterals? f g children)

end

variable {f : String → Binary64 → Option Binary64} {g : Calendar.Moment → Calendar.Moment}

theorem isSome_operandWithLiterals? (operand : Option (Expr Op)) :
    (operandWithLiterals? f g operand).isSome ↔
      ∀ e ∈ operand.toList, (withLiterals? f g e).isSome := by
  cases operand with
  | none => simp [operandWithLiterals?]
  | some operand => simp [operandWithLiterals?]

theorem isSome_childrenWithLiterals? (children : List (Option (Expr Op))) :
    (childrenWithLiterals? f g children).isSome ↔
      ∀ e ∈ children.filterMap fun child => child, (withLiterals? f g e).isSome := by
  induction children with
  | nil => simp [childrenWithLiterals?]
  | cons child children ih =>
      have hcons : (childrenWithLiterals? f g (child :: children)).isSome ↔
          (operandWithLiterals? f g child).isSome ∧
            (childrenWithLiterals? f g children).isSome := by
        rw [childrenWithLiterals?]
        cases operandWithLiterals? f g child with
        | none => simp
        | some child' => cases childrenWithLiterals? f g children <;> simp
      rw [hcons, isSome_operandWithLiterals?, ih]
      cases child with
      | none => simp
      | some child => simp

theorem isSome_withLiterals?_node (e : Expr Op) :
    (e.withLiterals? f g).isSome ↔
      (∀ id value, number id value = e → (f id value).isSome) ∧
        ∀ operand ∈ e.operands, (operand.withLiterals? f g).isSome := by
  cases e with
  | group id children =>
      rw [operands, ← isSome_childrenWithLiterals?]
      simp [withLiterals?]
  | binary id op lhs rhs =>
      rw [operands, List.forall_mem_append, ← isSome_operandWithLiterals?,
        ← isSome_operandWithLiterals?, withLiterals?]
      cases operandWithLiterals? f g lhs with
      | none => simp
      | some lhs' => cases operandWithLiterals? f g rhs <;> simp
  | unary id op operand =>
      rw [operands, ← isSome_operandWithLiterals?, withLiterals?]
      cases operandWithLiterals? f g operand <;> simp
  | ternary id op lhs rhs rhs2 =>
      rw [operands, List.forall_mem_append, List.forall_mem_append,
        ← isSome_operandWithLiterals?, ← isSome_operandWithLiterals?,
        ← isSome_operandWithLiterals?, withLiterals?]
      cases operandWithLiterals? f g lhs with
      | none => simp
      | some lhs' =>
          cases operandWithLiterals? f g rhs with
          | none => simp
          | some rhs' => cases operandWithLiterals? f g rhs2 <;> simp
  | reference id name => simp [withLiterals?, operands]
  | number id value => simp [withLiterals?, operands]
  | boolean id value => simp [withLiterals?, operands]
  | string id value => simp [withLiterals?, operands]
  | time id value => simp [withLiterals?, operands]

/-- A tree takes new literals if there is one for each of its numbers. -/
theorem isSome_withLiterals? (e : Expr Op) :
    (e.withLiterals? f g).isSome ↔ ∀ id value, number id value ∈ e.nodes → (f id value).isSome := by
  induction e using operandInduction with
  | h e ih =>
      rw [isSome_withLiterals?_node]
      constructor
      · rintro ⟨hself, hoperands⟩ id value hmem
        rcases mem_nodes.1 hmem with heq | ⟨operand, hoperand, hmem⟩
        · exact hself id value heq
        · exact (ih operand hoperand).1 (hoperands operand hoperand) id value hmem
      · intro h
        constructor
        · intro id value heq
          exact h id value (mem_nodes.2 (Or.inl heq))
        · intro operand hoperand
          apply (ih operand hoperand).2
          intro id value hmem
          exact h id value (mem_nodes.2 (Or.inr ⟨operand, hoperand, hmem⟩))

end Expr
end FilterLang
