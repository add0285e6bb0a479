import FilterLang.Expr.Node
import FilterLang.Proofs.ExprNodes
import FilterLang.Proofs.NumberTexts

/-!
# Texts of equal trees

Equality of trees looks through two differences: that of the two zeros, and that of two
moments at one instant.  A moment is shown in universal time, so the second difference
leaves no trace in a text.  The first one does, since a zero is shown with its sign.

So equal trees have the same text exactly if the zeros that are shown have the same signs,
one by one.  That a text with another sign can not be made up for further on is what
`Agrees` says, and it is kept when texts are put together.
-/

namespace FilterLang

-- Powers of natural numbers are `Nat.pow`, whatever else is in scope.
attribute [local instance (high)] instPowNat

/-! ## Signs of zeros -/

/-- Whether a zero is negative. -/
def Binary64.zeroSign? : Binary64 → Option Bool
  | .finite negative magnitude => if magnitude.units = 0 then some negative else none
  | .infinite _ | .nan => none

def Token.zeroSigns : Token → List Bool
  | number value => value.zeroSign?.toList
  | _ => []

namespace Expr

mutual

/-- The signs of the zeros that the text of a tree shows, in their order. -/
def zeroSigns : Expr Token → List Bool
  | group _ children => childrenZeroSigns children
  | binary _ op (some lhs) (some rhs) => zeroSigns lhs ++ op.zeroSigns ++ zeroSigns rhs
  | unary _ op (some operand) => op.zeroSigns ++ zeroSigns operand
  | ternary _ op (some lhs) (some rhs) (some rhs2) =>
      zeroSigns lhs ++ op.zeroSigns ++ zeroSigns rhs ++ zeroSigns rhs2
  | binary .. | unary .. | ternary .. => []
  | number _ value => value.zeroSign?.toList
  | reference .. | boolean .. | string .. | time .. => []

def childrenZeroSigns : List (Option (Expr Token)) → List Bool
  | [] => []
  | none :: children => childrenZeroSigns children
  | some child :: children => zeroSigns child ++ childrenZeroSigns children

end

end Expr

/-! ## Texts that differ in signs -/

/-- Two texts and the signs in them: as many in both, and whatever stands behind the texts,
the whole is the same exactly if the signs are and what stands behind. -/
structure Agrees (s s' : List Char) (z z' : List Bool) : Prop where
  length_eq : z.length = z'.length
  append_eq_iff : ∀ r r', s ++ r = s' ++ r' ↔ z = z' ∧ r = r'

namespace Agrees

variable {s s' t t' : List Char} {z z' w w' : List Bool}

theorem refl (s : List Char) (z : List Bool) : Agrees s s z z where
  length_eq := rfl
  append_eq_iff := by simp

theorem append (h : Agrees s s' z z') (h' : Agrees t t' w w') :
    Agrees (s ++ t) (s' ++ t') (z ++ w) (z' ++ w') where
  length_eq := by rw [List.length_append, List.length_append, h.length_eq, h'.length_eq]
  append_eq_iff := by
    intro r r'
    have hsigns : z ++ w = z' ++ w' ↔ z = z' ∧ w = w' := by
      constructor
      · intro heq
        exact List.append_inj heq h.length_eq
      · rintro ⟨rfl, rfl⟩
        rfl
    rw [List.append_assoc, List.append_assoc, h.append_eq_iff, h'.append_eq_iff, hsigns,
      and_assoc]

theorem cons (c : Char) (h : Agrees s s' z z') : Agrees (c :: s) (c :: s') z z' :=
  (refl [c] []).append h

theorem text_eq_iff (h : Agrees s s' z z') : s = s' ↔ z = z' := by
  have hends := h.append_eq_iff [] []
  rw [List.append_nil, List.append_nil] at hends
  rw [hends]
  exact and_iff_left rfl

/-- A sign in front of a text that begins with none. -/
theorem signText {c : Char} (hc : c ≠ '-') (text : List Char) (negative negative' : Bool) :
    Agrees (Binary64.signText negative ++ c :: text) (Binary64.signText negative' ++ c :: text)
      [negative] [negative'] where
  length_eq := rfl
  append_eq_iff := by
    intro r r'
    cases negative with
    | true =>
        cases negative' with
        | true => simp
        | false => simp [Binary64.signText, hc.symm]
    | false =>
        cases negative' with
        | true => simp [Binary64.signText, hc]
        | false => simp

end Agrees

/-! ## Equal numbers and equal tokens -/

namespace Binary64

variable {x y : Binary64}

/-- Numbers are equal if they are the same, and else if both are zeros. -/
theorem sameValue_cases (h : x.sameValue y = true) :
    x = y ∨ ∃ negative negative' magnitude, magnitude.units = 0 ∧
      x = .finite negative magnitude ∧ y = .finite negative' magnitude := by
  cases x with
  | nan => cases h
  | infinite negative =>
      cases y with
      | infinite negative' => exact Or.inl (congrArg infinite (beq_iff_eq.1 h))
      | nan | finite => cases h
  | finite negative a =>
      cases y with
      | finite negative' b =>
          simp only [sameValue, Bool.and_eq_true, Bool.or_eq_true, beq_iff_eq] at h
          obtain ⟨hunits, hsign⟩ := h
          have hsame : a = b := by
            cases a
            cases b
            cases hunits
            rfl
          rcases hsign with hsign | hzero
          · exact Or.inl (by rw [hsign, hsame])
          · exact Or.inr ⟨negative, negative', a, hzero, rfl, by rw [hsame]⟩
      | nan | infinite => cases h

theorem zeroSign?_of_units {magnitude : Magnitude} (h : magnitude.units = 0) (negative : Bool) :
    (finite negative magnitude).zeroSign? = some negative := by
  rw [zeroSign?, if_pos h]

/-- Equal numbers are written alike but for the sign of zero, if zeros are written with
their sign in front. -/
theorem agrees_of_signed {write : Binary64 → List Char}
    (hwrite : ∀ magnitude : Magnitude, magnitude.units = 0 → ∃ c tail, c ≠ '-' ∧
      ∀ negative, write (.finite negative magnitude) = signText negative ++ c :: tail)
    (h : x.sameValue y = true) :
    Agrees (write x) (write y) x.zeroSign?.toList y.zeroSign?.toList := by
  rcases sameValue_cases h with rfl | ⟨negative, negative', magnitude, hzero, rfl, rfl⟩
  · exact .refl _ _
  · obtain ⟨c, tail, hc, htext⟩ := hwrite magnitude hzero
    rw [zeroSign?_of_units hzero, zeroSign?_of_units hzero, htext, htext]
    exact .signText hc tail negative negative'

theorem agrees_numberText (h : x.sameValue y = true) :
    Agrees (Expr.numberText x) (Expr.numberText y) x.zeroSign?.toList y.zeroSign?.toList := by
  apply agrees_of_signed _ h
  intro magnitude _
  obtain ⟨c, tail, htext, hc⟩ := Magnitude.exists_fixedText_eq_cons (by decide : 0 < 3) magnitude
  refine ⟨c, tail, ?_, ?_⟩
  · rintro rfl
    contradiction
  · intro negative
    rw [Expr.numberText, htext]

theorem agrees_text (style : NumberStyle) (h : x.sameValue y = true) :
    Agrees (x.text style) (y.text style) x.zeroSign?.toList y.zeroSign?.toList := by
  apply agrees_of_signed _ h
  intro magnitude hzero
  refine ⟨'0', if style.keepsFraction then ['.', '0'] else [], by decide, ?_⟩
  intro negative
  rw [text, Magnitude.text, if_pos hzero]
  split <;> rfl

end Binary64

theorem Token.agrees_text {t t' : Token} (h : t.sameValue t' = true) :
    Agrees t.text t'.text t.zeroSigns t'.zeroSigns := by
  cases t with
  | number x =>
      cases t' with
      | number y => exact Binary64.agrees_text numberStyle h
      | ident | string | time | keyword | symbol | endOfInput => cases h
  | ident | string | time | keyword | symbol | endOfInput =>
      rw [beq_iff_eq.1 h]
      exact .refl _ _

/-! ## Equal trees -/

namespace Expr

theorem sameOption_cases {Op : Type} {sameOp : Op → Op → Bool} {x y : Option (Expr Op)}
    (h : sameOption sameOp x y = true) :
    (x = none ∧ y = none) ∨
      ∃ e f, x = some e ∧ y = some f ∧ e.sameValue sameOp f = true := by
  cases x with
  | none =>
      cases y with
      | none => exact Or.inl ⟨rfl, rfl⟩
      | some f => cases h
  | some e =>
      cases y with
      | none => cases h
      | some f => exact Or.inr ⟨e, f, rfl, rfl, h⟩

theorem agrees_childrenText {children children' : List (Option (Expr Token))}
    (h : sameList Token.sameValue children children' = true)
    (ih : ∀ child, some child ∈ children → ∀ child' : Expr Token,
      child.sameValue Token.sameValue child' = true →
        Agrees child.text child'.text child.zeroSigns child'.zeroSigns) :
    Agrees (childrenText children) (childrenText children')
      (childrenZeroSigns children) (childrenZeroSigns children') := by
  induction children generalizing children' with
  | nil =>
      cases children' with
      | nil => exact .refl _ _
      | cons => cases h
  | cons child children ihc =>
      cases children' with
      | nil => cases h
      | cons child' children' =>
          rw [sameList, Bool.and_eq_true] at h
          have hlater := ihc h.2 fun child hchild => ih child (List.mem_cons_of_mem _ hchild)
          rcases sameOption_cases h.1 with ⟨rfl, rfl⟩ | ⟨e, f, rfl, rfl, hsame⟩
          · exact hlater
          · exact (ih e (List.mem_cons_self ..) f hsame).append hlater

/-- Equal trees have texts that agree but for the signs of zeros. -/
theorem agrees_text {e f : Expr Token} (h : e.sameValue Token.sameValue f = true) :
    Agrees e.text f.text e.zeroSigns f.zeroSigns := by
  induction e generalizing f with
  | group id children ih =>
      cases f with
      | group id' children' =>
          rw [sameValue, Bool.and_eq_true] at h
          exact agrees_childrenText h.2 fun child hchild child' hsame => ih child hchild hsame
      | _ => cases h
  | binary id op lhs rhs ihl ihr =>
      cases f with
      | binary id' op' lhs' rhs' =>
          simp only [sameValue, Bool.and_eq_true] at h
          obtain ⟨⟨⟨-, hop⟩, hlhs⟩, hrhs⟩ := h
          rcases sameOption_cases hlhs with ⟨rfl, rfl⟩ | ⟨l, l', rfl, rfl, hl⟩
          · exact .refl [] []
          rcases sameOption_cases hrhs with ⟨rfl, rfl⟩ | ⟨r, r', rfl, rfl, hr⟩
          · exact .refl [] []
          have hjoined := (ihl l rfl hl).append ((Token.agrees_text hop).cons ' ')
          exact hjoined.append ((ihr r rfl hr).cons ' ')
      | _ => cases h
  | unary id op operand ih =>
      cases f with
      | unary id' op' operand' =>
          simp only [sameValue, Bool.and_eq_true] at h
          obtain ⟨⟨-, hop⟩, hoperand⟩ := h
          rcases sameOption_cases hoperand with ⟨rfl, rfl⟩ | ⟨x, x', rfl, rfl, hx⟩
          · exact .refl [] []
          exact (Token.agrees_text hop).append ((ih x rfl hx).cons ' ')
      | _ => cases h
  | ternary id op lhs rhs rhs2 ihl ihr ihr2 =>
      cases f with
      | ternary id' op' lhs' rhs' rhs2' =>
          simp only [sameValue, Bool.and_eq_true] at h
          obtain ⟨⟨⟨⟨-, hop⟩, hlhs⟩, hrhs⟩, hrhs2⟩ := h
          rcases sameOption_cases hlhs with ⟨rfl, rfl⟩ | ⟨l, l', rfl, rfl, hl⟩
          · exact .refl [] []
          rcases sameOption_cases hrhs with ⟨rfl, rfl⟩ | ⟨r, r', rfl, rfl, hr⟩
          · exact .refl [] []
          rcases sameOption_cases hrhs2 with ⟨rfl, rfl⟩ | ⟨q, q', rfl, rfl, hq⟩
          · exact .refl [] []
          have hjoined := (ihl l rfl hl).append ((Token.agrees_text hop).cons ' ')
          exact (hjoined.append ((ihr r rfl hr).cons ' ')).append ((ihr2 q rfl hq).cons ' ')
      | _ => cases h
  | reference id name =>
      cases f with
      | reference id' name' =>
          simp only [sameValue, Bool.and_eq_true, beq_iff_eq] at h
          rw [text, text, h.2]
          exact .refl _ []
      | _ => cases h
  | number id value =>
      cases f with
      | number id' value' =>
          rw [sameValue, Bool.and_eq_true] at h
          exact Binary64.agrees_numberText h.2
      | _ => cases h
  | boolean id value =>
      cases f with
      | boolean id' value' =>
          simp only [sameValue, Bool.and_eq_true, beq_iff_eq] at h
          rw [text, text, h.2]
          exact .refl _ []
      | _ => cases h
  | string id value =>
      cases f with
      | string id' value' =>
          simp only [sameValue, Bool.and_eq_true, beq_iff_eq] at h
          rw [text, text, h.2]
          exact .refl _ []
      | _ => cases h
  | time id value =>
      cases f with
      | time id' value' =>
          simp only [sameValue, Bool.and_eq_true, beq_iff_eq] at h
          rw [text, text, h.2]
          exact .refl _ []
      | _ => cases h

/-- Equal trees show as many zeros as each other, and their texts are the same exactly if
the signs of these are. -/
theorem equal_trees_render_alike_but_for_zero_signs {e f : Expr Token}
    (h : e.sameValue Token.sameValue f = true) :
    e.zeroSigns.length = f.zeroSigns.length ∧
      (e.render = f.render ↔ e.zeroSigns = f.zeroSigns) := by
  have hagree := agrees_text h
  refine ⟨hagree.length_eq, ?_⟩
  rw [render, render, String.ofList_inj]
  exact hagree.text_eq_iff

/-- A moment and a zero, and the same instant in another place. -/
theorem equal_trees_render_alike_in_another_place :
    (group "" [some (time "" ⟨⟨0, 0, by decide⟩, 0, by decide⟩), some (number "" .zero)] :
        Expr Token).sameValue Token.sameValue
      (group "" [some (time "" ⟨⟨0, 0, by decide⟩, 7200, by decide⟩), some (number "" .zero)]) =
        true ∧
    (group "" [some (time "" ⟨⟨0, 0, by decide⟩, 0, by decide⟩), some (number "" .zero)] :
        Expr Token).render =
      (group "" [some (time "" ⟨⟨0, 0, by decide⟩, 7200, by decide⟩), some (number "" .zero)] :
        Expr Token).render :=
  ⟨by decide, (equal_trees_render_alike_but_for_zero_signs (by decide)).2.2 rfl⟩

/-- The two zeros are equal, but they are not shown alike. -/
theorem equal_zeros_render_apart :
    (number "" (.finite false .zero) : Expr Token).sameValue Token.sameValue
      (number "" (.finite true .zero)) = true ∧
    (number "" (.finite false .zero) : Expr Token).render = "0.000" ∧
    (number "" (.finite true .zero) : Expr Token).render = "-0.000" := by
  decide +kernel

end Expr
end FilterLang
