import FilterLang.Proofs.JsonValues
import FilterLang.Proofs.OutermostNodes

/-!
# Trees written as JSON and read back

A tree that was written reads back exactly if its brackets nest no deeper than
the reader allows and each of its numbers reads back when it is written alone.
Then it is the tree with these numbers, and with its times as calendar and clock
show them: a leap second inside a minute comes back as the second after it.
-/

namespace FilterLang
namespace Interchange

open Json (Value rereadMembers?)

variable {Op : Type} [OperatorForm Op]

/-! ## Texts of encoded nodes -/

/-- The compact form of any value, as far as it nests no deeper than the reader allows. -/
theorem toOption_ofJson_text (v : Value) :
    (Expr.ofJson (String.ofList v.text) : Except Error (Expr Op)).toOption =
      (v.within? Mismatch Json.maxDepth).bind outermost? := by
  have htext : v.text = Json.Spaces.none.text ++ ((v.document none).text ++
      Json.Spaces.none.text) := by
    rw [Json.text_compact]
    exact (List.append_nil _).symm
  rw [htext, toOption_ofJson, Json.value?_document]

/-- The text of an encoded node reads as the node with its literals as they come
back, if its brackets do not nest too deep. -/
theorem NodeMembers.ofJson_text {e : Expr Op} {members : List (String × Value)}
    (h : NodeMembers e members) {v : Value}
    (hv : v = .object ((tagName, .string (kind e).name) :: members)) :
    (Expr.ofJson (String.ofList v.text) : Except Error (Expr Op)).toOption =
      if v.depth ≤ Json.maxDepth then reread? e else none := by
  have hdecode := h.decodesAs.2
  have houtermost : ∀ v', v.reread? Mismatch = some v' →
      (outermost? v' : Option (Expr Op)) = (decode v').toOption := by
    intro v' hv'
    rw [hv, Value.reread?] at hv'
    obtain ⟨members', hmembers', rfl⟩ := Option.map_eq_some_iff.1 hv'
    rw [rereadMembers?, Value.reread?] at hmembers'
    simp only [Option.bind_eq_bind, Option.bind_some, Option.bind_eq_some_iff,
      Option.pure_def, Option.some.injEq] at hmembers'
    obtain ⟨rest, -, rfl⟩ := hmembers'
    rw [outermost?, if_pos]
    simp [namesKind]
  rw [toOption_ofJson_text, Value.within?]
  by_cases hdepth : v.depth ≤ Json.maxDepth
  · rw [if_pos hdepth, if_pos hdepth, ← hdecode, ← hv]
    cases hreread : v.reread? Mismatch with
    | none => rfl
    | some v' => exact houtermost v' hreread
  · rw [if_neg hdepth, if_neg hdepth]
    rfl

end Interchange

namespace Expr

open Interchange

variable {Op : Type} [OperatorForm Op]

/-- What comes back of a tree that is written and read. -/
def throughJson? (e : Expr Op) : Option (Expr Op) :=
  e.toJson.toOption.bind fun text => (ofJson text).toOption

/-- The text of a tree reads back exactly if its brackets nest at most 127 deep
and every number literal of the tree reads back on its own.  It reads as the tree
with each number as it comes back on its own and each time as it is shown, and nothing
else changed. -/
structure ReadsBack (e : Expr Op) (text : String) : Prop where
  reads_iff : (∃ tree : Expr Op, ofJson text = .ok tree) ↔
    Json.nesting text.toList ≤ 127 ∧
      ∀ id value, number id value ∈ e.nodes → (number id value : Expr Op).throughJson?.isSome
  reads_as : ∀ tree : Expr Op, ofJson text = .ok tree →
    e.withLiterals? (fun id value => (number id value : Expr Op).throughJson?.bind number?)
      Calendar.Moment.shown = some tree

theorem encode_of_toJson {e : Expr Op} {text : String} (h : e.toJson = .ok text) :
    ∃ v, encode e = .ok v ∧ text = String.ofList v.text := by
  rw [toJson] at h
  cases hencode : encode e with
  | error mismatch =>
      rw [hencode] at h
      contradiction
  | ok v =>
      rw [hencode] at h
      cases h
      exact ⟨v, rfl, rfl⟩

/-- What is written nests as deep as the value that the tree is encoded as. -/
theorem nesting_of_toJson {e : Expr Op} {text : String} (h : e.toJson = .ok text) {v : Json.Value}
    (hv : encode e = .ok v) : Json.nesting text.toList = v.depth := by
  obtain ⟨v', hv', rfl⟩ := encode_of_toJson h
  rw [hv] at hv'
  cases hv'
  rw [String.toList_ofList, Json.nesting_text]

theorem throughJson?_of_encode {e : Expr Op} {v : Json.Value} (h : encode e = .ok v) :
    e.throughJson? = (ofJson (String.ofList v.text) : Except Error (Expr Op)).toOption := by
  rw [throughJson?, toJson, h]
  rfl

theorem numberValue_not_finite {value : Binary64}
    (h : ∀ negative magnitude, value ≠ .finite negative magnitude) :
    numberValue value = .null := by
  cases value with
  | nan => rfl
  | infinite negative => rfl
  | finite negative magnitude => exact absurd rfl (h negative magnitude)

theorem depth_numberValue (value : Binary64) : (numberValue value).depth = 0 := by
  cases value <;> rfl

/-- A literal on its own always nests one deep, so it comes back as its value does. -/
theorem throughJson?_literal {e : Expr Op} {k : Kind} {id : String} {v : Json.Value}
    (hkind : kind e = k) (hencode : encode e = .ok (literal k id .value v)) (hv : v.depth = 0)
    (hmembers : NodeMembers e [(Field.id.key, .string id), (Field.value.key, v)]) :
    e.throughJson? = reread? e := by
  have hdepth : (literal k id .value v).depth ≤ Json.maxDepth := by
    have hone : (literal k id .value v).depth = 1 := by
      simp [literal, header, Json.Value.depth, Json.membersDepth, hv]
    rw [hone]
    decide
  have hobject : literal k id .value v =
      .object ((tagName, .string (kind e).name) ::
        [(Field.id.key, .string id), (Field.value.key, v)]) := by
    rw [hkind]
    rfl
  have htext := hmembers.ofJson_text hobject
  rw [throughJson?_of_encode hencode, htext, if_pos hdepth]

theorem throughJson?_number (id : String) (value : Binary64) :
    (number id value : Expr Op).throughJson? = (numberReread? value).map (number id) := by
  rw [throughJson?_literal rfl rfl (depth_numberValue value) (nodeMembers_number id value),
    reread?, withLiterals?]

/-- A time whose stamp is read comes back as it is shown, when it is written and read on
its own. -/
theorem throughJson?_time (id : String) {value : Calendar.Moment} (h : value.Exchangeable) :
    (time id value : Expr Op).throughJson? = some (time id value.shown) := by
  rw [throughJson?_literal rfl rfl rfl (nodeMembers_time id h), reread?, withLiterals?]

theorem throughJson?_not_finite (id : String) {value : Binary64}
    (h : ∀ negative magnitude, value ≠ .finite negative magnitude) :
    (number id value : Expr Op).throughJson? = none := by
  rw [throughJson?_number, numberReread?, numberValue_not_finite h]
  rfl

theorem exists_ofJson_iff (text : String) :
    (∃ tree : Expr Op, ofJson text = .ok tree) ↔
      (ofJson text : Except Error (Expr Op)).toOption.isSome := by
  simp only [Option.isSome_iff_exists, Json.toOption_eq_some]

theorem readsBack_toJson [LawfulOperatorForm Op] {e : Expr Op} {text : String}
    (htext : e.toJson = .ok text) (hmoments : ∀ m ∈ e.moments, m.Exchangeable) :
    e.ReadsBack text := by
  obtain ⟨v, hv, rfl⟩ := encode_of_toJson htext
  obtain ⟨members, hobject, hmembers⟩ := nodeMembers_of_encode hv hmoments
  have hread := hmembers.ofJson_text hobject
  have hnesting := nesting_of_toJson htext hv
  have halone : (fun id value => (number id value : Expr Op).throughJson?.bind number?) =
      fun _ value => numberReread? value := by
    funext id value
    rw [throughJson?_number]
    cases numberReread? value <;> rfl
  constructor
  · rw [exists_ofJson_iff, hread, hnesting]
    by_cases hdepth : v.depth ≤ Json.maxDepth
    · rw [if_pos hdepth, reread?, isSome_withLiterals?]
      constructor
      · intro h
        constructor
        · exact hdepth
        · intro id value hmem
          rw [throughJson?_number, Option.isSome_map]
          exact h id value hmem
      · intro h id value hmem
        have hnumber := h.2 id value hmem
        rw [throughJson?_number, Option.isSome_map] at hnumber
        exact hnumber
    · rw [if_neg hdepth]
      constructor
      · intro h
        contradiction
      · intro h
        exact absurd h.1 hdepth
  · intro tree htree
    rw [halone]
    rw [htree] at hread
    by_cases hdepth : v.depth ≤ Json.maxDepth
    · rw [if_pos hdepth] at hread
      exact hread.symm
    · rw [if_neg hdepth] at hread
      contradiction

theorem exists_toJson_iff (e : Expr Op) :
    (∃ text, e.toJson = .ok text) ↔
      ∀ op ∈ e.operators, ∃ text, OperatorForm.write op = .ok text := by
  rw [← encode_ok_iff]
  constructor
  · intro ⟨text, htext⟩
    obtain ⟨v, hv, -⟩ := encode_of_toJson htext
    exact ⟨v, hv⟩
  · intro ⟨v, hv⟩
    exact ⟨String.ofList v.text, by rw [toJson, hv]⟩

theorem toJson_not_finite (id : String) {value : Binary64}
    (h : ∀ negative magnitude, value ≠ .finite negative magnitude) :
    (number id value : Expr Op).toJson =
      .ok (String.ofList ("\x7b\"type\":\"number_literal\",\"id\":".toList ++
        Json.writeString id.toList ++ ",\"value\":null\x7d".toList)) := by
  have htext : (literal .number id .value .null).text =
      "\x7b\"type\":\"number_literal\",\"id\":".toList ++ Json.writeString id.toList ++
        ",\"value\":null\x7d".toList := by
    simp only [literal, header, List.cons_append, List.nil_append, Json.Value.text,
      Json.memberTexts, Json.joinWith, List.append_assoc]
    rfl
  rw [toJson, encode, numberValue_not_finite h, ← htext]

end Expr
end FilterLang
