import FilterLang.Expr.Node
import FilterLang.Proofs.CivilTime
import FilterLang.Proofs.ExprNodes
import FilterLang.Proofs.NumberTexts
import FilterLang.Proofs.QuotedTokens

/-!
# Rendered trees are printable lines

A text is printable if no control character stands in it.  Quoting escapes every
control character, and all that is not quoted is made of a few marks, letters and
digits.  So the text of any token is printable, and a rendered tree can hold a
control character only where an operator of its own does.
-/

namespace FilterLang

-- What holds of each character of a list is decided along the list.
attribute [local instance (high)] List.decidableBAll

namespace Text

def Printable (text : List Char) : Prop :=
  ∀ c ∈ text, isControl c = false

instance (text : List Char) : Decidable (Printable text) := by
  unfold Printable
  infer_instance

theorem isControl_eq_false_iff (c : Char) :
    isControl c = false ↔ 0x20 ≤ c.toNat ∧ (c.toNat < 0x7F ∨ 0x9F < c.toNat) := by
  simp only [isControl, Bool.or_eq_false_iff, Bool.and_eq_false_iff, decide_eq_false_iff_not]
  omega

theorem Printable.append {front back : List Char} (hfront : Printable front)
    (hback : Printable back) : Printable (front ++ back) :=
  List.forall_mem_append.2 ⟨hfront, hback⟩

theorem Printable.cons {c : Char} {text : List Char} (hc : isControl c = false)
    (htext : Printable text) : Printable (c :: text) :=
  List.forall_mem_cons.2 ⟨hc, htext⟩

theorem printable_nil : Printable [] := by
  simp [Printable]

/-! ## Characters outside quotes -/

theorem isControl_of_isDigit {c : Char} (hc : c.isDigit = true) : isControl c = false := by
  have hzero : '0'.toNat = 48 := rfl
  have hnine : '9'.toNat = 57 := rfl
  rw [Char.isDigit_iff_toNat] at hc
  rw [isControl_eq_false_iff]
  omega

theorem isControl_of_isWordChar {c : Char} (hc : isWordChar c = true) : isControl c = false := by
  rcases (isWordChar_iff c).1 hc with hstart | hdigit
  · rw [isWordStart_iff] at hstart
    rw [isControl_eq_false_iff]
    omega
  · exact isControl_of_isDigit hdigit

theorem isControl_of_isNumeric {c : Char} (hc : IsNumeric c) : isControl c = false := by
  have hmarks : ∀ c ∈ ['.', '-', '+', 'e'], isControl c = false := by decide
  rcases hc with hdigit | hmark
  · exact isControl_of_isDigit hdigit
  · exact hmarks c hmark

theorem isControl_of_hexValue? {c : Char} (hc : (hexValue? c).isSome) : isControl c = false := by
  have hle : ∀ a : Char, a ≤ c ↔ a.toNat ≤ c.toNat := by
    intro a
    rw [Char.le_def, UInt32.le_iff_toNat_le]
    rfl
  have hge : ∀ a : Char, c ≤ a ↔ c.toNat ≤ a.toNat := by
    intro a
    rw [Char.le_def, UInt32.le_iff_toNat_le]
    rfl
  have hlower : 'a'.toNat = 97 ∧ 'f'.toNat = 102 := ⟨rfl, rfl⟩
  have hupper : 'A'.toNat = 65 ∧ 'F'.toNat = 70 := ⟨rfl, rfl⟩
  unfold hexValue? at hc
  simp only [hle, hge] at hc
  rw [isControl_eq_false_iff]
  split at hc
  next hdigit => exact (isControl_eq_false_iff c).1 (isControl_of_isDigit hdigit)
  split at hc
  next => omega
  split at hc
  next => omega
  next => contradiction

/-! ## Quoted forms -/

namespace Quoted

theorem printable_writeChar {q : Char} (hq : IsQuote q) (c : Char) :
    Printable (writeChar q c) := by
  have hbackslash : isControl '\\' = false := by decide
  have hletters : ∀ c ∈ ['n', 'r', 't'], isControl c = false := by decide
  unfold writeChar
  split
  next hactive =>
    refine .cons hbackslash (.cons ?_ printable_nil)
    rcases hactive with rfl | rfl
    · rcases hq with rfl | rfl
      · decide
      · decide
    · exact hbackslash
  iterate 3
    split
    · exact .cons hbackslash (.cons (hletters _ (by simp)) printable_nil)
  split
  next =>
    have hopening : Printable ['\\', 'u', '{'] := by decide
    have hclosing : Printable ['}'] := by decide
    refine (hopening.append ?_).append hclosing
    intro d hd
    rcases mem_padLeft hd with rfl | hdigit
    · decide
    · exact isControl_of_hexValue? (isSome_hexValue?_of_mem_toDigits hdigit)
  next hcontrol => exact .cons (by simpa using hcontrol) printable_nil

/-- Whatever a text holds, its quoted form is printable. -/
theorem printable_write {q : Char} (hq : IsQuote q) (text : List Char) :
    Printable (write q text) := by
  have hquote : isControl q = false := by
    rcases hq with rfl | rfl
    · decide
    · decide
  have hbody : Printable (text.flatMap (writeChar q)) := by
    intro d hd
    obtain ⟨c, -, hd⟩ := List.mem_flatMap.1 hd
    exact printable_writeChar hq c d hd
  exact (Printable.cons hquote hbody).append (.cons hquote printable_nil)

end Quoted
end Text

open Text (Printable)

/-! ## Tokens -/

namespace Token

theorem printable_identText (name : String) : Printable (identText name) := by
  unfold identText
  split
  next hbare =>
    unfold isBareIdent at hbare
    split at hbare
    next => contradiction
    next c rest hlist =>
      simp only [Bool.and_eq_true, List.all_eq_true] at hbare
      rw [hlist]
      apply Printable.cons
      · exact Text.isControl_of_isWordChar (Text.isWordChar_of_isWordStart hbare.1.1)
      · intro d hd
        exact Text.isControl_of_isWordChar (hbare.1.2 d hd)
  next => exact Text.Quoted.printable_write (Or.inl rfl) _

theorem printable_stringText (value : String) : Printable (stringText value) :=
  Text.Quoted.printable_write (Or.inr rfl) _

theorem printable_instantText (i : Calendar.Instant) : Printable i.text := by
  have hmarks : ∀ c ∈ ['-', '+', ' ', ':', '.'], Text.isControl c = false := by decide
  intro c hc
  rcases i.isTimeChar_text c hc with hdigit | hmark
  · exact Text.isControl_of_isDigit hdigit
  · exact hmarks c hmark

theorem printable_text (t : Token) : Printable t.text := by
  cases t with
  | ident name => exact printable_identText name
  | string value => exact printable_stringText value
  | number value =>
      have hnames : ∀ c ∈ ['N', 'a', 'i', 'n', 'f'], Text.isControl c = false := by decide
      intro c hc
      rcases Binary64.mem_text hc with hnumeric | hname
      · exact Text.isControl_of_isNumeric hnumeric
      · exact hnames c hname
  | time instant => exact printable_instantText instant
  | keyword k =>
      have hall : ∀ k ∈ Keyword.all, Printable k.text.toList := by decide
      exact hall k k.mem_all
  | symbol s =>
      have hall : ∀ s ∈ Symbol.all, Printable s.text.toList := by decide
      exact hall s s.mem_all
  | endOfInput =>
      have hend : Printable "EOF".toList := by decide
      exact hend

end Token

/-! ## Trees -/

namespace Expr

theorem printable_numberText (value : Binary64) : Printable (numberText value) := by
  cases value with
  | nan => exact (by decide : Printable "NaN".toList)
  | infinite negative =>
      have hnames : ∀ negative : Bool,
          Printable (if negative then "-Inf" else "+Inf").toList := by decide
      exact hnames negative
  | finite negative magnitude =>
      obtain ⟨whole, fraction, htext, -, -, hwhole, hfraction, -⟩ :=
        Magnitude.exists_fixedText (by decide : 0 < 3) magnitude
      have hsign : ∀ negative : Bool, Printable (Binary64.signText negative) := by decide
      have hpoint : Text.isControl '.' = false := by decide
      rw [numberText, htext]
      refine (hsign negative).append (Printable.append ?_ (.cons hpoint ?_))
      · intro c hc
        exact Text.isControl_of_isDigit (hwhole c hc)
      · intro c hc
        exact Text.isControl_of_isDigit (hfraction c hc)

variable {Op : Type} [CanonicalText Op]

theorem printable_childrenText {children : List (Option (Expr Op))}
    (h : ∀ child, some child ∈ children → Printable child.text) :
    Printable (childrenText children) := by
  induction children with
  | nil => exact Text.printable_nil
  | cons operand children ih =>
      have hrest := ih fun child hchild => h child (List.mem_cons_of_mem _ hchild)
      cases operand with
      | none => exact hrest
      | some child => exact (h child (List.mem_cons_self ..)).append hrest

/-- A tree is rendered printably if its operators are. -/
theorem printable_text {e : Expr Op}
    (h : ∀ op ∈ e.operators, Printable (CanonicalText.text op)) : Printable e.text := by
  have hspace : Text.isControl ' ' = false := by decide
  induction e using operandInduction with
  | h e ih =>
      have hself : ∀ op, e.operator? = some op → Printable (CanonicalText.text op) := by
        intro op hop
        exact h op (mem_filterMap_nodes.2 (Or.inl hop))
      have hbelow : ∀ operand ∈ e.operands, Printable operand.text := by
        intro operand hoperand
        apply ih operand hoperand
        intro op hop
        exact h op (mem_filterMap_nodes.2 (Or.inr ⟨operand, hoperand, hop⟩))
      cases e with
      | group id children =>
          apply printable_childrenText
          intro child hchild
          exact hbelow child (List.mem_filterMap.2 ⟨some child, hchild, rfl⟩)
      | binary id op lhs rhs =>
          cases lhs with
          | none => exact Text.printable_nil
          | some lhs =>
              cases rhs with
              | none => exact Text.printable_nil
              | some rhs =>
                  have hlhs := hbelow lhs (by simp [operands])
                  have hrhs := hbelow rhs (by simp [operands])
                  exact (hlhs.append (.cons hspace (hself op rfl))).append (.cons hspace hrhs)
      | unary id op operand =>
          cases operand with
          | none => exact Text.printable_nil
          | some operand =>
              have hoperand := hbelow operand (by simp [operands])
              exact (hself op rfl).append (.cons hspace hoperand)
      | ternary id op lhs rhs rhs2 =>
          cases lhs with
          | none => exact Text.printable_nil
          | some lhs =>
              cases rhs with
              | none => exact Text.printable_nil
              | some rhs =>
                  cases rhs2 with
                  | none => exact Text.printable_nil
                  | some rhs2 =>
                      have hlhs := hbelow lhs (by simp [operands])
                      have hrhs := hbelow rhs (by simp [operands])
                      have hrhs2 := hbelow rhs2 (by simp [operands])
                      exact ((hlhs.append (.cons hspace (hself op rfl))).append
                        (.cons hspace hrhs)).append (.cons hspace hrhs2)
      | reference id name => exact Token.printable_identText name
      | number id value => exact printable_numberText value
      | boolean id value =>
          have hwords : ∀ value : Bool, Printable (if value then "true" else "false").toList := by
            decide
          exact hwords value
      | string id value => exact Token.printable_stringText value
      | time id value => exact Token.printable_instantText value.instant

/-- The text of a tree over tokens is one line without any control character, whatever the
tree holds. -/
theorem render_printable (e : Expr Token) :
    ∀ c ∈ e.render.toList, 0x20 ≤ c.toNat ∧ (c.toNat < 0x7F ∨ 0x9F < c.toNat) := by
  intro c hc
  rw [render, String.toList_ofList] at hc
  have hprintable : Printable e.text := printable_text fun op _ => op.printable_text
  exact (Text.isControl_eq_false_iff c).1 (hprintable c hc)

/-- A line feed in a name that stands as an operator, and a next-line character in a string. -/
theorem render_printable_of_line_breaks :
    (unary "\n" (Token.ident "a\nb") (some (string "" "\u0085"))).render =
        "\"a\\nb\" '\\u\x7b0085\x7d'" ∧
      '8' ∈ (unary "\n" (Token.ident "a\nb") (some (string "" "\u0085"))).render.toList ∧
      (0x20 ≤ '8'.toNat ∧ ('8'.toNat < 0x7F ∨ 0x9F < '8'.toNat)) := by
  have hmem : '8' ∈
      (unary "\n" (Token.ident "a\nb") (some (string "" "\u0085"))).render.toList := by
    decide +kernel
  exact ⟨by decide +kernel, hmem, render_printable _ '8' hmem⟩

end Expr
end FilterLang
