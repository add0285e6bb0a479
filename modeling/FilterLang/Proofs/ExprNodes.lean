import FilterLang.Expr.Basic

/-!
# The nodes of a tree

Trees nest through lists and options of trees, so induction on them is set up
here once: a property holds of every tree if it holds of a node whenever it
holds of the operands and children that are present.

Conditions on a tree speak of all its nodes, those under a node that renders as
nothing included.
-/

namespace FilterLang
namespace Expr

variable {Op : Type}

@[elab_as_elim, induction_eliminator]
theorem nodeInduction {motive : Expr Op → Prop}
    (group : ∀ id children, (∀ child, some child ∈ children → motive child) →
      motive (.group id children))
    (binary : ∀ id op lhs rhs, (∀ e, lhs = some e → motive e) →
      (∀ e, rhs = some e → motive e) → motive (.binary id op lhs rhs))
    (unary : ∀ id op operand, (∀ e, operand = some e → motive e) →
      motive (.unary id op operand))
    (ternary : ∀ id op lhs rhs rhs2, (∀ e, lhs = some e → motive e) →
      (∀ e, rhs = some e → motive e) → (∀ e, rhs2 = some e → motive e) →
      motive (.ternary id op lhs rhs rhs2))
    (reference : ∀ id name, motive (.reference id name))
    (number : ∀ id value, motive (.number id value))
    (boolean : ∀ id value, motive (.boolean id value))
    (string : ∀ id value, motive (.string id value))
    (time : ∀ id value, motive (.time id value))
    (e : Expr Op) : motive e := by
  refine @Expr.rec Op motive
    (fun children => ∀ child, some child ∈ children → motive child)
    (fun operand => ∀ e, operand = some e → motive e)
    group binary unary ternary reference number boolean string time ?_ ?_ ?_ ?_ e
  · intro child hchild
    simp at hchild
  · intro operand children hoperand hchildren child hchild
    rcases List.mem_cons.1 hchild with hhead | htail
    · exact hoperand child hhead.symm
    · exact hchildren child htail
  · intro e he
    contradiction
  · intro child hchild e he
    cases he
    exact hchild

mutual

/-- A node and all nodes below it, in the order of the text. -/
def nodes : Expr Op → List (Expr Op)
  | group id children => group id children :: childNodes children
  | binary id op lhs rhs => binary id op lhs rhs :: (operandNodes lhs ++ operandNodes rhs)
  | unary id op operand => unary id op operand :: operandNodes operand
  | ternary id op lhs rhs rhs2 =>
      ternary id op lhs rhs rhs2 ::
        (operandNodes lhs ++ operandNodes rhs ++ operandNodes rhs2)
  | leaf => [leaf]

def operandNodes : Option (Expr Op) → List (Expr Op)
  | none => []
  | some operand => nodes operand

def childNodes : List (Option (Expr Op)) → List (Expr Op)
  | [] => []
  | child :: children => operandNodes child ++ childNodes children

end

def operands : Expr Op → List (Expr Op)
  | group _ children => children.filterMap fun child => child
  | binary _ _ lhs rhs => lhs.toList ++ rhs.toList
  | unary _ _ operand => operand.toList
  | ternary _ _ lhs rhs rhs2 => lhs.toList ++ rhs.toList ++ rhs2.toList
  | _ => []

def operator? : Expr Op → Option Op
  | binary _ op _ _ | unary _ op _ | ternary _ op _ _ _ => some op
  | _ => none

def number? : Expr Op → Option Binary64
  | number _ value => some value
  | _ => none

def moment? : Expr Op → Option Calendar.Moment
  | time _ value => some value
  | _ => none

def children? : Expr Op → Option (List (Option (Expr Op)))
  | group _ children => some children
  | _ => none

def operators (e : Expr Op) : List Op :=
  e.nodes.filterMap operator?

def moments (e : Expr Op) : List Calendar.Moment :=
  e.nodes.filterMap moment?

def groups (e : Expr Op) : List (List (Option (Expr Op))) :=
  e.nodes.filterMap children?

theorem mem_operandNodes {operand : Option (Expr Op)} {n : Expr Op} :
    n ∈ operandNodes operand ↔ ∃ e ∈ operand.toList, n ∈ e.nodes := by
  cases operand <;> simp [operandNodes]

theorem mem_childNodes {children : List (Option (Expr Op))} {n : Expr Op} :
    n ∈ childNodes children ↔
      ∃ child ∈ children.filterMap fun child => child, n ∈ child.nodes := by
  induction children with
  | nil => simp [childNodes]
  | cons operand children ih =>
      cases operand with
      | none => simp [childNodes, operandNodes, ih]
      | some child => simp [childNodes, operandNodes, ih]

/-- The nodes of a tree are its root and the nodes of what the root holds. -/
theorem mem_nodes {e n : Expr Op} :
    n ∈ e.nodes ↔ n = e ∨ ∃ operand ∈ e.operands, n ∈ operand.nodes := by
  cases e with
  | group id children => simp only [nodes, operands, List.mem_cons, mem_childNodes]
  | binary id op lhs rhs =>
      simp only [nodes, operands, List.mem_cons, List.mem_append, mem_operandNodes]
      simp only [or_and_right, exists_or]
  | unary id op operand => simp only [nodes, operands, List.mem_cons, mem_operandNodes]
  | ternary id op lhs rhs rhs2 =>
      simp only [nodes, operands, List.mem_cons, List.mem_append, mem_operandNodes]
      simp only [or_and_right, exists_or]
  | reference id name => simp [nodes, operands]
  | number id value => simp [nodes, operands]
  | boolean id value => simp [nodes, operands]
  | string id value => simp [nodes, operands]
  | time id value => simp [nodes, operands]

/-- Induction on a tree by the operands and children that it holds. -/
theorem operandInduction {motive : Expr Op → Prop}
    (h : ∀ e : Expr Op, (∀ operand ∈ e.operands, motive operand) → motive e) (e : Expr Op) :
    motive e := by
  induction e with
  | group id children ih =>
      apply h
      intro operand hoperand
      exact ih operand (by simpa [operands] using hoperand)
  | binary id op lhs rhs ihl ihr =>
      apply h
      intro operand hoperand
      simp only [operands, List.mem_append, Option.mem_toList] at hoperand
      exact hoperand.elim (ihl operand) (ihr operand)
  | unary id op operand ih =>
      apply h
      intro e he
      simp only [operands, Option.mem_toList] at he
      exact ih e he
  | ternary id op lhs rhs rhs2 ihl ihr ihr2 =>
      apply h
      intro operand hoperand
      simp only [operands, List.mem_append, Option.mem_toList] at hoperand
      exact hoperand.elim (fun h => h.elim (ihl operand) (ihr operand)) (ihr2 operand)
  | reference id name => exact h _ (by simp [operands])
  | number id value => exact h _ (by simp [operands])
  | boolean id value => exact h _ (by simp [operands])
  | string id value => exact h _ (by simp [operands])
  | time id value => exact h _ (by simp [operands])

/-- What a tree collects from its nodes, it finds at its root or in an operand. -/
theorem mem_filterMap_nodes {α : Type} {f : Expr Op → Option α} {e : Expr Op} {a : α} :
    a ∈ e.nodes.filterMap f ↔
      f e = some a ∨ ∃ operand ∈ e.operands, a ∈ operand.nodes.filterMap f := by
  simp only [List.mem_filterMap, mem_nodes (e := e)]
  constructor
  · rintro ⟨n, rfl | ⟨operand, hoperand, hn⟩, hf⟩
    · exact Or.inl hf
    · exact Or.inr ⟨operand, hoperand, n, hn, hf⟩
  · rintro (hf | ⟨operand, hoperand, n, hn, hf⟩)
    · exact ⟨e, Or.inl rfl, hf⟩
    · exact ⟨n, Or.inr ⟨operand, hoperand, hn⟩, hf⟩

end Expr
end FilterLang
