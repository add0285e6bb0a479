import FilterLang.Interchange.Encode
import FilterLang.Proofs.ExprNodes

/-!
# Which trees can be encoded

A tree can be encoded exactly if each of its operators can be written, wherever
in the tree it stands.  Operators that are tokens can be written if they are
operators indeed, strings always; and what is written reads back as the same.
-/

namespace FilterLang

namespace Interchange

variable {Op : Type} [OperatorForm Op]

/-- Operators that read back from what they are written as. -/
class LawfulOperatorForm (Op : Type) [OperatorForm Op] : Prop where
  read_write : ∀ {op : Op} {text : String}, OperatorForm.write op = .ok text →
    OperatorForm.read text = .ok op

instance : LawfulOperatorForm String where
  read_write := by
    intro op text h
    cases h
    rfl

theorem write_token_ok_iff (op : Token) :
    (∃ text, OperatorForm.write op = .ok text) ↔ op.isOperator = true := by
  have hwrite : OperatorForm.write op =
      if op.isOperator then .ok (String.ofList op.text) else .error (.notOperator op) := rfl
  rw [hwrite]
  by_cases hop : op.isOperator = true
  · simp [hop]
  · simp [hop]

/-- The text of every operator is the text of that operator only. -/
theorem ofOperatorText_text {op : Token} (h : op.isOperator = true) :
    Token.ofOperatorText (String.ofList op.text) = .ok op := by
  cases op with
  | keyword k => cases k <;> rfl
  | symbol s => cases s <;> rfl
  | _ => contradiction

instance : LawfulOperatorForm Token where
  read_write := by
    intro op text h
    have hop := (write_token_ok_iff op).1 ⟨text, h⟩
    have hwrite : OperatorForm.write op = .ok (String.ofList op.text) := if_pos hop
    rw [hwrite] at h
    cases h
    have hread : OperatorForm.read (String.ofList op.text) =
        (Token.ofOperatorText (String.ofList op.text)).mapError .unknownOperator := rfl
    rw [hread, ofOperatorText_text hop]
    rfl

/-! ## Encoding -/

theorem bind_eq_ok {ε α β : Type} {x : Except ε α} {f : α → Except ε β} {b : β} :
    (x >>= f) = .ok b ↔ ∃ a, x = .ok a ∧ f a = .ok b := by
  cases x with
  | error e => simp [bind, Except.bind]
  | ok a => simp [bind, Except.bind]

theorem operatorMember_ok_iff {op : Op} :
    (∃ members, operatorMember op = .ok members) ↔ ∃ text, OperatorForm.write op = .ok text := by
  unfold operatorMember
  cases OperatorForm.write op with
  | error e => simp [bind, Except.bind]
  | ok text => simp [bind, Except.bind, pure, Except.pure]

theorem encodeOperand_ok_iff (f : Field) (operand : Option (Expr Op)) :
    (∃ members, encodeOperand f operand = .ok members) ↔
      ∀ e ∈ operand.toList, ∃ value, encode e = .ok value := by
  cases operand with
  | none => simp [encodeOperand]
  | some operand =>
      rw [encodeOperand]
      cases hencode : encode operand with
      | error e => simp [hencode, bind, Except.bind]
      | ok value => simp [hencode, bind, Except.bind, pure, Except.pure]

theorem encodeChildren_ok_iff (children : List (Option (Expr Op))) :
    (∃ values, encodeChildren children = .ok values) ↔
      ∀ e ∈ children.filterMap fun child => child, ∃ value, encode e = .ok value := by
  induction children with
  | nil => simp [encodeChildren]
  | cons operand children ih =>
      cases operand with
      | none =>
          simp only [encodeChildren, bind_eq_ok, List.filterMap_cons_none]
          rw [← ih]
          constructor
          · rintro ⟨_, values, hvalues, -⟩
            exact ⟨values, hvalues⟩
          · rintro ⟨values, hvalues⟩
            exact ⟨_, values, hvalues, rfl⟩
      | some child =>
          have hcons : (some child :: children).filterMap (fun child => child) =
              child :: children.filterMap fun child => child := rfl
          simp only [encodeChildren, bind_eq_ok]
          rw [hcons, List.forall_mem_cons, ← ih]
          constructor
          · rintro ⟨_, value, hvalue, values, hvalues, -⟩
            exact ⟨⟨value, hvalue⟩, values, hvalues⟩
          · rintro ⟨⟨value, hvalue⟩, values, hvalues⟩
            exact ⟨_, value, hvalue, values, hvalues, rfl⟩

/-- A node can be written if its operator and all that it holds can. -/
theorem encode_node_ok_iff (e : Expr Op) :
    (∃ value, encode e = .ok value) ↔
      (∀ op, e.operator? = some op → ∃ text, OperatorForm.write op = .ok text) ∧
        ∀ operand ∈ e.operands, ∃ value, encode operand = .ok value := by
  cases e with
  | group id children =>
      simp only [encode, bind_eq_ok, Expr.operands, Expr.operator?]
      rw [← encodeChildren_ok_iff]
      constructor
      · rintro ⟨_, values, hvalues, -⟩
        exact ⟨by simp, values, hvalues⟩
      · rintro ⟨-, values, hvalues⟩
        exact ⟨_, values, hvalues, rfl⟩
  | binary id op lhs rhs =>
      simp only [encode, bind_eq_ok, Expr.operands, Expr.operator?, Option.some.injEq,
        forall_eq', List.forall_mem_append]
      rw [← operatorMember_ok_iff, ← encodeOperand_ok_iff .lhs, ← encodeOperand_ok_iff .rhs]
      constructor
      · rintro ⟨_, ops, hops, ls, hls, rs, hrs, -⟩
        exact ⟨⟨ops, hops⟩, ⟨ls, hls⟩, rs, hrs⟩
      · rintro ⟨⟨ops, hops⟩, ⟨ls, hls⟩, rs, hrs⟩
        exact ⟨_, ops, hops, ls, hls, rs, hrs, rfl⟩
  | unary id op operand =>
      simp only [encode, bind_eq_ok, Expr.operands, Expr.operator?, Option.some.injEq,
        forall_eq']
      rw [← operatorMember_ok_iff, ← encodeOperand_ok_iff .operand]
      constructor
      · rintro ⟨_, ops, hops, es, hes, -⟩
        exact ⟨⟨ops, hops⟩, es, hes⟩
      · rintro ⟨⟨ops, hops⟩, es, hes⟩
        exact ⟨_, ops, hops, es, hes, rfl⟩
  | ternary id op lhs rhs rhs2 =>
      simp only [encode, bind_eq_ok, Expr.operands, Expr.operator?, Option.some.injEq,
        forall_eq', List.forall_mem_append]
      rw [← operatorMember_ok_iff, ← encodeOperand_ok_iff .lhs, ← encodeOperand_ok_iff .rhs,
        ← encodeOperand_ok_iff .rhs2]
      constructor
      · rintro ⟨_, ops, hops, ls, hls, rs, hrs, ts, hts, -⟩
        exact ⟨⟨ops, hops⟩, ⟨⟨ls, hls⟩, rs, hrs⟩, ts, hts⟩
      · rintro ⟨⟨ops, hops⟩, ⟨⟨ls, hls⟩, rs, hrs⟩, ts, hts⟩
        exact ⟨_, ops, hops, ls, hls, rs, hrs, ts, hts, rfl⟩
  | reference id name => simp [encode, Expr.operator?, Expr.operands]
  | number id value => simp [encode, Expr.operator?, Expr.operands]
  | boolean id value => simp [encode, Expr.operator?, Expr.operands]
  | string id value => simp [encode, Expr.operator?, Expr.operands]
  | time id value => simp [encode, Expr.operator?, Expr.operands]

/-- A tree can be written if all its operators can. -/
theorem encode_ok_iff (e : Expr Op) :
    (∃ value, encode e = .ok value) ↔
      ∀ op ∈ e.operators, ∃ text, OperatorForm.write op = .ok text := by
  induction e using Expr.operandInduction with
  | h e ih =>
      rw [encode_node_ok_iff]
      constructor
      · rintro ⟨hroot, hoperands⟩ op hop
        rcases Expr.mem_filterMap_nodes.1 hop with hself | ⟨operand, hmem, hop⟩
        · exact hroot op hself
        · exact (ih operand hmem).1 (hoperands operand hmem) op hop
      · intro h
        constructor
        · intro op hop
          exact h op (Expr.mem_filterMap_nodes.2 (Or.inl hop))
        · intro operand hmem
          apply (ih operand hmem).2
          intro op hop
          exact h op (Expr.mem_filterMap_nodes.2 (Or.inr ⟨operand, hmem, hop⟩))

end Interchange
end FilterLang
