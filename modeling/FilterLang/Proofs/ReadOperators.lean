import FilterLang.Proofs.JsonRoundTrip
import FilterLang.Proofs.NodeParts

/-!
# Operators of trees that were read

Every operator of a tree that was read from JSON was read from a string of its
own.  It holds of each node, since whatever a node holds was read from one of the
values under it, and so by induction of the tree.

For tokens, reading and writing disagree on what an operator is.  All symbols and
keywords are read, also the six that only delimit or name values, and a tree with
one of these cannot be written again.
-/

namespace FilterLang
namespace Interchange

open Json (Value)

variable {Op : Type} [OperatorForm Op]

/-- Every operator of the tree was read from some text. -/
def OperatorsRead (e : Expr Op) : Prop :=
  ∀ op ∈ e.operators, ∃ text, OperatorForm.read text = .ok op

theorem operatorsRead_of_operands {e : Expr Op}
    (hroot : ∀ op, e.operator? = some op → ∃ text, OperatorForm.read text = .ok op)
    (hbelow : ∀ operand ∈ e.operands, OperatorsRead operand) : OperatorsRead e := by
  intro op hop
  rcases Expr.mem_filterMap_nodes.1 hop with hself | ⟨operand, hmem, hop⟩
  · exact hroot op hself
  · exact hbelow operand hmem op hop

/-- Decoding takes operators from nowhere but the strings of the value. -/
theorem DecodedFrom.operatorsRead {values : List Value} {e : Expr Op}
    (h : DecodedFrom values e) : OperatorsRead e := by
  induction e using Expr.operandInduction generalizing values with
  | h e ih =>
      apply operatorsRead_of_operands h.op
      intro operand hmem
      obtain ⟨v, -, held, -, hdecode⟩ := h.operand operand hmem
      obtain ⟨values', -, hoperand⟩ := exists_decodedFrom hdecode
      exact ih operand hmem hoperand

theorem operatorsRead_ofJson {text : String} {e : Expr Op} (h : Expr.ofJson text = .ok e) :
    OperatorsRead e := by
  obtain ⟨envelope, rest, -, hdecode, -⟩ := exists_envelope_of_ofJson h
  exact (decodedFrom_envelope hdecode).operatorsRead

/-! ## Tokens in the place of operators -/

/-- The symbols and keywords that combine nothing. -/
def strayOperators : List Token :=
  [.symbol .lParen, .symbol .rParen, .symbol .comma,
    .keyword .null, .keyword .true, .keyword .false]

theorem not_isOperator_of_stray {op : Token} (h : op ∈ strayOperators) :
    op.isOperator = false := by
  have hall : ∀ op ∈ strayOperators, op.isOperator = false := by decide
  exact hall op h

theorem ofOperatorText_ok {text : String} {op : Token} (h : Token.ofOperatorText text = .ok op) :
    op.isOperator = true ∨ op ∈ strayOperators := by
  unfold Token.ofOperatorText at h
  dsimp only at h
  split at h
  next s _ =>
    cases h
    cases s <;> decide
  next =>
    split at h
    next k _ =>
      cases h
      cases k <;> decide
    next => cases h

/-- A unary node of nothing but an operator is read exactly if the operator is. -/
theorem toOption_ofJson_unary (text : String) :
    (Expr.ofJson (String.ofList (Value.object
      [(tagName, .string Kind.unary.name), (Field.op.key, .string text)]).text)).toOption =
        (OperatorForm.read text : Except Mismatch Op).toOption.map fun op => .unary "" op none := by
  have hkind : kindAmong [(tagName, .string Kind.unary.name), (Field.op.key, .string text)] none =
      .ok .unary := rfl
  have hknown : known .unary [(tagName, .string Kind.unary.name), (Field.op.key, .string text)] =
      [(.op, .string text)] := rfl
  have hentry : (entryOf? .unary .op (.string text) : Option (Entry Op)) =
      (OperatorForm.read text).toOption.map .op := rfl
  rw [toOption_ofJson_text]
  change (decode _ : Except Mismatch (Expr Op)).toOption = _
  rw [decode_object, hkind]
  change ((decodeMembers .unary [] _ {}).toOption.bind _) = _
  rw [toOption_decodeMembers, hknown, fillAll?_cons, hentry]
  · cases (OperatorForm.read text : Except Mismatch Op) with
    | error e => rfl
    | ok op => rfl
  · rw [hknown]
    exact List.nodup_singleton _
  · simp

/-- Any text that reads as an operator is accepted as that of a unary node. -/
theorem ofJson_unary {op : Op} {text : String} (h : OperatorForm.read text = .ok op) :
    Expr.ofJson (String.ofList (Value.object
      [(tagName, .string Kind.unary.name), (Field.op.key, .string text)]).text) =
        .ok (.unary "" op none) := by
  rw [← Json.toOption_eq_some, toOption_ofJson_unary, h]
  rfl

end Interchange

namespace Expr

open Interchange

/-- A tree that was read holds operators and the six stray tokens.  All that it holds are
operators exactly if none of the six is in it, and then it can be written again, but not
otherwise. -/
theorem operators_of_read_trees (text : String) (e : Expr Token) (h : ofJson text = .ok e) :
    (∀ op ∈ e.operators, op.isOperator = true ∨ op ∈ strayOperators) ∧
      ((∀ op ∈ e.operators, op.isOperator = true) ↔ ∀ op ∈ e.operators, op ∉ strayOperators) ∧
      ((∃ written, e.toJson = .ok written) ↔ ∀ op ∈ e.operators, op ∉ strayOperators) := by
  have hread : ∀ op ∈ e.operators, op.isOperator = true ∨ op ∈ strayOperators := by
    intro op hop
    obtain ⟨written, hwritten⟩ := operatorsRead_ofJson h op hop
    have heq : OperatorForm.read written =
        (Token.ofOperatorText written).mapError .unknownOperator := rfl
    rw [heq, ← Json.toOption_eq_some, Json.toOption_mapError, Json.toOption_eq_some] at hwritten
    exact ofOperatorText_ok hwritten
  have hall : (∀ op ∈ e.operators, op.isOperator = true) ↔
      ∀ op ∈ e.operators, op ∉ strayOperators := by
    constructor
    · intro hoperators op hop hstray
      have := hoperators op hop
      rw [not_isOperator_of_stray hstray] at this
      contradiction
    · intro hnone op hop
      exact (hread op hop).resolve_right (hnone op hop)
  refine ⟨hread, hall, ?_⟩
  rw [exists_toJson_iff]
  simp only [write_token_ok_iff]
  exact hall

theorem operators_of_read_negation :
    ofJson "\x7b\"type\":\"unary\",\"op\":\" not \"\x7d" =
      .ok (unary "" (Token.keyword .not) none) ∧
    (∀ op ∈ (unary "" (Token.keyword .not) none).operators, op.isOperator = true) ∧
    ∃ written, (unary "" (Token.keyword .not) none).toJson = .ok written := by
  have hread : ofJson "\x7b\"type\":\"unary\",\"op\":\" not \"\x7d" =
      .ok (unary "" (Token.keyword .not) none) :=
    @ofJson_unary Token _ _ " not " rfl
  have hoperators := operators_of_read_trees _ _ hread
  have hnone : ∀ op ∈ (unary "" (Token.keyword .not) none).operators, op ∉ strayOperators := by
    decide
  exact ⟨hread, hoperators.2.1.2 hnone, hoperators.2.2.2 hnone⟩

/-- A parenthesis is read as an operator, is none, and cannot be written back. -/
theorem parenthesis_read_as_operator :
    ofJson "\x7b\"type\":\"unary\",\"op\":\"(\"\x7d" =
      .ok (unary "" (Token.symbol .lParen) none) ∧
    (Token.symbol .lParen).isOperator = false ∧
    (unary "" (Token.symbol .lParen) none).toJson =
      .error (.ofMismatch (.notOperator (.symbol .lParen))) :=
  ⟨@ofJson_unary Token _ _ "(" rfl, rfl, rfl⟩

end Expr
end FilterLang
