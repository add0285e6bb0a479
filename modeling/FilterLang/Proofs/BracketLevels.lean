import FilterLang.Proofs.EncodedTrees
import FilterLang.Proofs.JsonNesting

/-!
# Inside how many brackets a node stands

In the exchange format every node has brackets of its own, and a group has another
pair around its children.  So the level of a node is one more than that of the node
with the operator above it, and two more than that of the group above it, whichever
way the nodes above it are laid out.

A written tree nests as deep as the deepest brackets of some node of it.
-/

namespace FilterLang

variable {Op : Type}

namespace Expr

/-- The pairs of brackets that stand between a node and what it holds, its own among
them. -/
def brackets : Expr Op → Nat
  | group _ _ => 2
  | _ => 1

theorem brackets_le (e : Expr Op) : e.brackets ≤ 2 := by
  cases e <;> simp [brackets]

/-- In the tree stands a node, inside a number of brackets with its own among them. -/
inductive StandsAt : Expr Op → Nat → Expr Op → Prop
  | self (e : Expr Op) : StandsAt e 1 e
  | operand {e operand n : Expr Op} {level : Nat} (hmem : operand ∈ e.operands)
      (h : StandsAt operand level n) : StandsAt e (level + e.brackets) n

end Expr

namespace Interchange

open FilterLang.Expr (StandsAt)
open Json (Value)

variable [OperatorForm Op]

/-- Members or items that hold the encoded trees nest as deep as the deepest of these. -/
structure Deepest (trees : List (Expr Op)) (depth : Nat) : Prop where
  le : ∀ e ∈ trees, ∃ v, encode e = .ok v ∧ v.depth ≤ depth
  attained : depth = 0 ∨ ∃ e ∈ trees, ∃ v, encode e = .ok v ∧ v.depth = depth

theorem deepest_nil : Deepest ([] : List (Expr Op)) 0 where
  le := fun _ hmem => absurd hmem List.not_mem_nil
  attained := Or.inl rfl

theorem deepest_singleton {e : Expr Op} {v : Value} (h : encode e = .ok v) :
    Deepest [e] v.depth where
  le := by
    intro e' hmem
    cases List.mem_singleton.1 hmem
    exact ⟨v, h, Nat.le_refl _⟩
  attained := Or.inr ⟨e, List.mem_singleton_self e, v, h, rfl⟩

theorem Deepest.append {trees trees' : List (Expr Op)} {depth depth' : Nat}
    (h : Deepest trees depth) (h' : Deepest trees' depth') :
    Deepest (trees ++ trees') (max depth depth') := by
  constructor
  · intro e hmem
    rcases List.mem_append.1 hmem with hmem | hmem
    · obtain ⟨v, hv, hle⟩ := h.le e hmem
      exact ⟨v, hv, Nat.le_trans hle (Nat.le_max_left ..)⟩
    · obtain ⟨v, hv, hle⟩ := h'.le e hmem
      exact ⟨v, hv, Nat.le_trans hle (Nat.le_max_right ..)⟩
  · rcases Nat.le_total depth depth' with hle | hle
    · rw [Nat.max_eq_right hle]
      rcases h'.attained with hzero | ⟨e, he, hv⟩
      · exact Or.inl hzero
      · exact Or.inr ⟨e, List.mem_append_right _ he, hv⟩
    · rw [Nat.max_eq_left hle]
      rcases h.attained with hzero | ⟨e, he, hv⟩
      · exact Or.inl hzero
      · exact Or.inr ⟨e, List.mem_append_left _ he, hv⟩

theorem membersDepth_append (members members' : List (String × Value)) :
    Json.membersDepth (members ++ members') =
      max (Json.membersDepth members) (Json.membersDepth members') := by
  induction members with
  | nil => exact (Nat.zero_max _).symm
  | cons m members ih =>
      rw [List.cons_append, Json.membersDepth, ih, Json.membersDepth, Nat.max_assoc]

theorem membersDepth_header (k : Kind) (id : String) : Json.membersDepth (header k id) = 0 := rfl

theorem membersDepth_operator {op : Op} {members : List (String × Value)}
    (h : operatorMember op = .ok members) : Json.membersDepth members = 0 := by
  obtain ⟨text, -, heq⟩ := bind_eq_ok.1 h
  cases heq
  rfl

theorem deepest_operand {f : Field} {operand : Option (Expr Op)} {members : List (String × Value)}
    (h : encodeOperand f operand = .ok members) :
    Deepest operand.toList (Json.membersDepth members) := by
  cases operand with
  | none =>
      rw [encodeOperand] at h
      cases h
      exact deepest_nil
  | some e =>
      rw [encodeOperand] at h
      obtain ⟨v, hv, heq⟩ := bind_eq_ok.1 h
      cases heq
      rw [Json.membersDepth, Json.membersDepth, Nat.max_zero]
      exact deepest_singleton hv

theorem deepest_children {children : List (Option (Expr Op))} {values : List Value}
    (h : encodeChildren children = .ok values) :
    Deepest (children.filterMap fun child => child) (Json.itemsDepth values) := by
  induction children generalizing values with
  | nil =>
      rw [encodeChildren] at h
      cases h
      exact deepest_nil
  | cons child children ih =>
      cases child with
      | none =>
          rw [encodeChildren] at h
          obtain ⟨values', hvalues, heq⟩ := bind_eq_ok.1 h
          cases heq
          rw [Json.itemsDepth, Value.depth, Nat.zero_max, List.filterMap_cons_none rfl]
          exact ih hvalues
      | some e =>
          rw [encodeChildren] at h
          obtain ⟨v, hv, h⟩ := bind_eq_ok.1 h
          obtain ⟨values', hvalues, heq⟩ := bind_eq_ok.1 h
          cases heq
          exact (deepest_singleton hv).append (ih hvalues)

/-- What a node holds nests one or two brackets less deep than the node. -/
theorem deepest_encode {e : Expr Op} {v : Value} (h : encode e = .ok v) :
    ∃ depth, Deepest e.operands depth ∧ v.depth = depth + e.brackets := by
  cases e with
  | group id children =>
      rw [encode] at h
      obtain ⟨values, hvalues, heq⟩ := bind_eq_ok.1 h
      cases heq
      refine ⟨_, deepest_children hvalues, ?_⟩
      rw [Value.depth, membersDepth_append, membersDepth_header]
      simp [Json.membersDepth, Value.depth, Expr.brackets]
  | binary id op lhs rhs =>
      rw [encode] at h
      obtain ⟨ops, hops, h⟩ := bind_eq_ok.1 h
      obtain ⟨ls, hls, h⟩ := bind_eq_ok.1 h
      obtain ⟨rs, hrs, heq⟩ := bind_eq_ok.1 h
      cases heq
      refine ⟨_, (deepest_operand hls).append (deepest_operand hrs), ?_⟩
      simp [Value.depth, membersDepth_append, membersDepth_header, membersDepth_operator hops,
        Expr.brackets]
  | unary id op operand =>
      rw [encode] at h
      obtain ⟨ops, hops, h⟩ := bind_eq_ok.1 h
      obtain ⟨es, hes, heq⟩ := bind_eq_ok.1 h
      cases heq
      refine ⟨_, deepest_operand hes, ?_⟩
      simp [Value.depth, membersDepth_append, membersDepth_header, membersDepth_operator hops,
        Expr.brackets]
  | ternary id op lhs rhs rhs2 =>
      rw [encode] at h
      obtain ⟨ops, hops, h⟩ := bind_eq_ok.1 h
      obtain ⟨ls, hls, h⟩ := bind_eq_ok.1 h
      obtain ⟨rs, hrs, h⟩ := bind_eq_ok.1 h
      obtain ⟨ts, hts, heq⟩ := bind_eq_ok.1 h
      cases heq
      refine ⟨_, ((deepest_operand hls).append (deepest_operand hrs)).append
        (deepest_operand hts), ?_⟩
      simp [Value.depth, membersDepth_append, membersDepth_header, membersDepth_operator hops,
        Expr.brackets]
  | reference id name | boolean id value | string id value | time id value =>
      rw [encode] at h
      cases h
      exact ⟨0, deepest_nil, rfl⟩
  | number id value =>
      rw [encode] at h
      cases h
      refine ⟨0, deepest_nil, ?_⟩
      cases value <;> rfl

/-- The deepest brackets of a written tree are those of some node of it. -/
theorem exists_standsAt_of_encode {e : Expr Op} {v : Value} (h : encode e = .ok v) :
    ∃ level n, e.StandsAt level n ∧ v.depth + 1 = level + n.brackets := by
  induction e using Expr.operandInduction generalizing v with
  | h e ih =>
      obtain ⟨depth, hdeepest, hdepth⟩ := deepest_encode h
      rcases hdeepest.attained with hzero | ⟨operand, hmem, w, hw, hdepth'⟩
      · refine ⟨1, e, .self e, ?_⟩
        omega
      · obtain ⟨level, n, hn, hlevel⟩ := ih operand hmem hw
        refine ⟨level + e.brackets, n, .operand hmem hn, ?_⟩
        omega

/-- The brackets of each node are among those of the written tree. -/
theorem level_le_of_encode {e n : Expr Op} {level : Nat} (hn : e.StandsAt level n) {v : Value}
    (h : encode e = .ok v) : level + n.brackets ≤ v.depth + 1 := by
  induction hn generalizing v with
  | self e =>
      obtain ⟨depth, -, hdepth⟩ := deepest_encode h
      omega
  | operand hmem _ ih =>
      obtain ⟨depth, hdeepest, hdepth⟩ := deepest_encode h
      obtain ⟨w, hw, hle⟩ := hdeepest.le _ hmem
      have hlevel := ih hw
      omega

end Interchange
end FilterLang
