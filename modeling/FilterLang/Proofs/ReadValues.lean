import FilterLang.Proofs.EncodedTrees
import FilterLang.Proofs.QuotedGrammar
import FilterLang.Proofs.ReadNumbers

/-!
# What is read as a JSON value

Any text that a value was read from opens brackets at least as deep as the value
nests, and closes them all again.  Only arrays and objects open any, since space,
literals and numbers consist of plain characters and the brackets in a string do not
count.
-/

namespace FilterLang
namespace Json

open Interchange (bind_eq_ok)

-- What holds of each character of a list is decided along the list.
attribute [local instance (high)] List.decidableBAll

variable {μ : Type} {text middle rest : List Char}

/-! ## Brackets -/

/-- The text in front of `rest` opens brackets to a number of levels, closes them all
and ends outside strings. -/
def Passes (text rest : List Char) (levels : Nat) : Prop :=
  ∃ front, front ++ rest = text ∧
    ∀ {s : Brackets}, s.Outside → front.foldl Brackets.step s = s.dip levels

theorem Skips.passes (h : Skips text rest) : Passes text rest 0 := by
  obtain ⟨front, rfl, hfront⟩ := h
  refine ⟨front, rfl, ?_⟩
  intro s hs
  rw [Brackets.dip_zero hs]
  exact Brackets.foldl_step_plain hfront hs

namespace Passes

variable {levels levels' : Nat}

theorem trans (h : Passes text middle levels) (h' : Passes middle rest levels') :
    Passes text rest (max levels levels') := by
  obtain ⟨front, rfl, hfront⟩ := h
  obtain ⟨more, rfl, hmore⟩ := h'
  refine ⟨front ++ more, List.append_assoc .., ?_⟩
  intro s hs
  rw [List.foldl_append, hfront hs, hmore (hs.dip levels), Brackets.dip_dip]

theorem behind (h : Passes middle rest levels) (hskips : Skips text middle) :
    Passes text rest levels := by
  have hpasses := hskips.passes.trans h
  rwa [Nat.zero_max] at hpasses

theorem bracketed {opening closing : Char} (hopening : opening = '[' ∨ opening = '{')
    (hclosing : closing = ']' ∨ closing = '}') (h : Passes text (closing :: rest) levels) :
    Passes (opening :: text) rest (levels + 1) := by
  obtain ⟨front, rfl, hfront⟩ := h
  refine ⟨opening :: front ++ [closing], by simp, ?_⟩
  intro s hs
  exact Brackets.foldl_step_bracketed hopening hclosing hfront hs

/-- The brackets of a text that is passed to its end nest as deep as was passed. -/
theorem nesting (h : Passes text [] levels) : nesting text = levels := by
  obtain ⟨front, rfl, hfront⟩ := h
  have houtside : Brackets.Outside {} := ⟨rfl, rfl, Nat.le_refl 0⟩
  rw [Json.nesting, List.append_nil, hfront houtside]
  simp [Brackets.dip]

end Passes

/-! ## Strings -/

/-- The text in front of `rest` leaves a scan in the string in which it began. -/
def StaysQuoted (text rest : List Char) : Prop :=
  ∃ front, front ++ rest = text ∧ ∀ {s : Brackets}, s.Outside →
    front.foldl Brackets.step { s with quoted := true } = { s with quoted := true }

theorem StaysQuoted.trans (h : StaysQuoted text middle) (h' : StaysQuoted middle rest) :
    StaysQuoted text rest := by
  obtain ⟨front, rfl, hfront⟩ := h
  obtain ⟨more, rfl, hmore⟩ := h'
  refine ⟨front ++ more, List.append_assoc .., ?_⟩
  intro s hs
  rw [List.foldl_append, hfront hs, hmore hs]

theorem staysQuoted_escape {c : Char} {front : List Char}
    (hfront : ∀ c ∈ front, c ≠ '\\' ∧ c ≠ '"') (rest : List Char) :
    StaysQuoted ('\\' :: c :: (front ++ rest)) rest :=
  ⟨'\\' :: c :: front, rfl, fun hs => Brackets.foldl_step_escape hfront hs⟩

theorem exists_readFourHex {n : Nat} (h : readFourHex (μ := μ) text = .ok (n, rest)) :
    ∃ digits, digits ++ rest = text ∧ ∀ c ∈ digits, c ≠ '\\' ∧ c ≠ '"' := by
  unfold readFourHex at h
  split at h
  next a b c d tail =>
    split at h
    next hvalue =>
      cases h
      refine ⟨[a, b, c, d], rfl, ?_⟩
      intro e he
      have hhex := Text.Quoted.isSome_hexValue?_of_hexNumber? hvalue e he
      constructor
      · rintro rfl
        contradiction
      · rintro rfl
        contradiction
    next => cases h
  next =>
    split at h
    next => cases h
    next => cases h

theorem staysQuoted_readTrailing {leading : Nat} {c : Char}
    (h : readTrailing (μ := μ) leading text = .ok (c, rest)) : StaysQuoted text rest := by
  unfold readTrailing at h
  split at h
  next => cases h
  next => cases h
  next tail =>
    obtain ⟨⟨trailing, rest'⟩, hfour, hafter⟩ := bind_eq_ok.1 h
    obtain ⟨digits, rfl, hdigits⟩ := exists_readFourHex hfour
    dsimp only at hafter
    split at hafter
    next =>
      obtain rfl : rest' = rest := congrArg Prod.snd (Except.ok.inj hafter)
      exact staysQuoted_escape hdigits rest'
    next => cases hafter
  next => cases h
  next => cases h

theorem staysQuoted_readEscape {c : Char} (h : readEscape (μ := μ) text = .ok (c, rest)) :
    StaysQuoted ('\\' :: text) rest := by
  unfold readEscape at h
  split at h
  next => cases h
  next d tail =>
    iterate 6
      split at h
      next =>
        cases h
        exact staysQuoted_escape (List.forall_mem_nil _) rest
    split at h
    next =>
      obtain ⟨⟨code, rest'⟩, hfour, hafter⟩ := bind_eq_ok.1 h
      obtain ⟨digits, rfl, hdigits⟩ := exists_readFourHex hfour
      have hescape : StaysQuoted ('\\' :: d :: (digits ++ rest')) rest' :=
        staysQuoted_escape hdigits rest'
      dsimp only at hafter
      split at hafter
      next => cases hafter
      split at hafter
      next => exact hescape.trans (staysQuoted_readTrailing hafter)
      next =>
        obtain rfl : rest' = rest := congrArg Prod.snd (Except.ok.inj hafter)
        exact hescape
    next => cases h

theorem staysQuoted_readString {value : List Char}
    (h : readString (μ := μ) text = .ok (value, rest)) : StaysQuoted text ('"' :: rest) := by
  fun_induction readString (μ := μ) text generalizing value with
  | case1 => cases h
  | case2 text =>
      cases h
      exact ⟨[], rfl, fun _ => rfl⟩
  | case3 => cases h
  | case4 text d middle hescape _ _ ih =>
      obtain ⟨⟨value', rest'⟩, hrest, heq⟩ := map_eq_ok h
      cases heq
      exact (staysQuoted_readEscape hescape).trans (ih hrest)
  | case5 => cases h
  | case6 c text hquote hbackslash _ ih =>
      obtain ⟨⟨value', rest'⟩, hrest, heq⟩ := map_eq_ok h
      cases heq
      have hplain : ∀ d ∈ [c], d ≠ '\\' ∧ d ≠ '"' := by
        simpa using And.intro hbackslash hquote
      have hfirst : StaysQuoted (c :: text) text :=
        ⟨[c], rfl, fun hs => Brackets.foldl_step_quoted hplain hs⟩
      exact hfirst.trans (ih hrest)

theorem passes_readString {value : List Char}
    (h : readString (μ := μ) text = .ok (value, rest)) : Passes ('"' :: text) rest 0 := by
  obtain ⟨front, rfl, hfront⟩ := staysQuoted_readString h
  refine ⟨'"' :: front ++ ['"'], by simp, ?_⟩
  intro s hs
  rw [Brackets.dip_zero hs]
  exact Brackets.foldl_step_string hfront hs

/-! ## Values -/

/-- All numbers in the value are finite. -/
inductive Value.Finite : Value → Prop
  | null : Finite .null
  | bool (value : Bool) : Finite (.bool value)
  | number {n : Number} (h : n.IsFinite) : Finite (.number n)
  | string (value : String) : Finite (.string value)
  | array {items : List Value} (h : ∀ item ∈ items, Finite item) : Finite (.array items)
  | object {members : List (String × Value)} (h : ∀ m ∈ members, Finite m.2) :
      Finite (.object members)

/-- A value that was read inside brackets which leave it a number of levels. -/
structure Value.Fits (v : Value) (levels : Nat) : Prop where
  depth_le : v.depth ≤ levels
  finite : v.Finite

theorem Value.Fits.mono {v : Value} {levels levels' : Nat} (h : v.Fits levels)
    (hle : levels ≤ levels') : v.Fits levels' :=
  ⟨Nat.le_trans h.depth_le hle, h.finite⟩

theorem itemsDepth_le_iff {items : List Value} {levels : Nat} :
    itemsDepth items ≤ levels ↔ ∀ item ∈ items, item.depth ≤ levels := by
  induction items with
  | nil => simp [itemsDepth]
  | cons item items ih => rw [itemsDepth, Nat.max_le, ih, List.forall_mem_cons]

theorem membersDepth_le_iff {members : List (String × Value)} {levels : Nat} :
    membersDepth members ≤ levels ↔ ∀ m ∈ members, m.2.depth ≤ levels := by
  induction members with
  | nil => simp [membersDepth]
  | cons m members ih => rw [membersDepth, Nat.max_le, ih, List.forall_mem_cons]

/-- What is read is a value that fits into the brackets that the text opens. -/
def Reader.Measured (reader : Reader μ Value) : Prop :=
  ∀ ⦃text rest : List Char⦄ ⦃v : Value⦄, reader.run text = .ok (v, rest) →
    ∃ levels, Passes text rest levels ∧ v.Fits levels

/-- The members afterwards are some of those before and some that were read. -/
def Gathers (before after : List (String × Value)) (levels : Nat) : Prop :=
  ∀ m ∈ after, m ∈ before ∨ m.2.Fits levels

theorem Gathers.refl (members : List (String × Value)) (levels : Nat) :
    Gathers members members levels :=
  fun _ hm => Or.inl hm

theorem Gathers.cons {v : Value} {levels : Nat} {name : String} (h : v.Fits levels)
    (members : List (String × Value)) : Gathers members ((name, v) :: members) levels := by
  intro m hm
  rcases List.mem_cons.1 hm with rfl | hm
  · exact Or.inr h
  · exact Or.inl hm

theorem Gathers.trans {before middle after : List (String × Value)} {levels levels' : Nat}
    (h : Gathers before middle levels) (h' : Gathers middle after levels') :
    Gathers before after (max levels levels') := by
  intro m hm
  rcases h' m hm with hmiddle | hfits
  · rcases h m hmiddle with hbefore | hfits
    · exact Or.inl hbefore
    · exact Or.inr (hfits.mono (Nat.le_max_left ..))
  · exact Or.inr (hfits.mono (Nat.le_max_right ..))

/-- A reader of members that adds to those gathered in the state. -/
def MeasuredMember {σ : Type} (gathered : σ → List (String × Value))
    (member : σ → String → Reader μ σ) : Prop :=
  ∀ ⦃state state' : σ⦄ ⦃name : String⦄ ⦃text rest : List Char⦄,
    (member state name).run text = .ok (state', rest) →
      ∃ levels, Passes text rest levels ∧ Gathers (gathered state) (gathered state') levels

theorem skips_cons_of_skipSpace {c : Char} (hc : Brackets.IsPlain c)
    (h : skipSpace text = c :: rest) : Skips text rest :=
  (skips_of_skipSpace h).trans ((Skips.refl rest).cons hc)

theorem passes_of_skipSpace (h : skipSpace text = rest) : Passes text rest 0 :=
  (skips_of_skipSpace h).passes

/-- The first item was read from one front of the text, the others from the next. -/
theorem measured_cons {v : Value} {items : List Value} {first levels : Nat}
    (hfirst : Passes text middle first) (hv : v.Fits first) (hpasses : Passes middle rest levels)
    (hitems : ∀ w ∈ items, w.Fits levels) :
    Passes text rest (max first levels) ∧ ∀ w ∈ v :: items, w.Fits (max first levels) := by
  refine ⟨hfirst.trans hpasses, List.forall_mem_cons.2 ⟨hv.mono (Nat.le_max_left ..), ?_⟩⟩
  intro w hw
  exact (hitems w hw).mono (Nat.le_max_right ..)

theorem measured_moreElements {item : Reader μ Value} (hitem : item.Measured) {items : List Value}
    (h : moreElements item text = .ok (items, rest)) :
    ∃ levels, Passes text (']' :: rest) levels ∧ ∀ v ∈ items, v.Fits levels := by
  fun_induction moreElements item text generalizing items with
  | case1 => cases h
  | case2 text tail htext =>
      cases h
      exact ⟨0, passes_of_skipSpace htext, List.forall_mem_nil _⟩
  | case3 => cases h
  | case4 => cases h
  | case5 => cases h
  | case6 text middle v later hread _ _ htext _ _ ih =>
      obtain ⟨⟨items', rest'⟩, hmore, heq⟩ := map_eq_ok h
      cases heq
      obtain ⟨first, hfirst, hv⟩ := hitem hread
      obtain ⟨levels, hpasses, hitems⟩ := ih hmore
      have hcomma := skips_cons_of_skipSpace (by decide) htext
      exact ⟨max first levels, measured_cons (hfirst.behind hcomma) hv hpasses hitems⟩
  | case7 => cases h

theorem measured_readElements {item : Reader μ Value} (hitem : item.Measured) {items : List Value}
    (h : readElements item text = .ok (items, rest)) :
    ∃ levels, Passes text (']' :: rest) levels ∧ ∀ v ∈ items, v.Fits levels := by
  unfold readElements at h
  split at h
  next => cases h
  next htext =>
    cases h
    exact ⟨0, passes_of_skipSpace htext, List.forall_mem_nil _⟩
  next =>
    obtain ⟨⟨v, middle⟩, hread, h⟩ := bind_eq_ok.1 h
    obtain ⟨⟨items', rest'⟩, hmore, heq⟩ := bind_eq_ok.1 h
    cases heq
    obtain ⟨first, hfirst, hv⟩ := hitem hread
    obtain ⟨levels, hpasses, hitems⟩ := measured_moreElements hitem hmore
    exact ⟨max first levels, measured_cons hfirst hv hpasses hitems⟩

section

variable {σ : Type} {gathered : σ → List (String × Value)} {member : σ → String → Reader μ σ}
  {state state' : σ}

theorem measured_readMember (hmember : MeasuredMember gathered member)
    (h : readMember (member state) text = .ok (state', rest)) :
    ∃ levels, Passes ('"' :: text) rest levels ∧
      Gathers (gathered state) (gathered state') levels := by
  obtain ⟨⟨name, middle⟩, hname, h⟩ := bind_eq_ok.1 h
  obtain ⟨levels, hpasses, hgathers⟩ := hmember h
  have hall := (passes_readString hname).trans hpasses
  rw [Nat.zero_max] at hall
  exact ⟨levels, hall, hgathers⟩

theorem measured_moreMembers (hmember : MeasuredMember gathered member)
    (h : moreMembers member state text = .ok (state', rest)) :
    ∃ levels, Passes text ('}' :: rest) levels ∧
      Gathers (gathered state) (gathered state') levels := by
  fun_induction moreMembers member state text with
  | case1 => cases h
  | case2 state text tail htext =>
      cases h
      exact ⟨0, passes_of_skipSpace htext, Gathers.refl _ 0⟩
  | case3 => cases h
  | case4 => cases h
  | case5 state text afterComma afterQuote state₁ later hread htext _ hname _ ih =>
      obtain ⟨first, hfirst, hgathers⟩ := measured_readMember hmember hread
      obtain ⟨levels, hpasses, hgathers'⟩ := ih h
      have hcomma := skips_cons_of_skipSpace (by decide) htext
      have hspace := skips_of_skipSpace hname
      exact ⟨max first levels, ((hfirst.trans hpasses).behind hspace).behind hcomma,
        hgathers.trans hgathers'⟩
  | case6 => cases h
  | case7 => cases h
  | case8 => cases h

theorem measured_readMembers (hmember : MeasuredMember gathered member)
    (h : readMembers member state text = .ok (state', rest)) :
    ∃ levels, Passes text ('}' :: rest) levels ∧
      Gathers (gathered state) (gathered state') levels := by
  unfold readMembers at h
  split at h
  next => cases h
  next htext =>
    cases h
    exact ⟨0, passes_of_skipSpace htext, Gathers.refl _ 0⟩
  next tail htext =>
    obtain ⟨⟨state₁, middle⟩, hread, h⟩ := bind_eq_ok.1 h
    obtain ⟨first, hfirst, hgathers⟩ := measured_readMember hmember hread
    obtain ⟨levels, hpasses, hgathers'⟩ := measured_moreMembers hmember h
    have hspace := skips_of_skipSpace htext
    exact ⟨max first levels, (hfirst.trans hpasses).behind hspace, hgathers.trans hgathers'⟩
  next => cases h

end

theorem measured_afterColon {α : Type} {value : Reader μ α} {a : α}
    (h : value.afterColon.run text = .ok (a, rest)) :
    ∃ middle, Skips text middle ∧ value.run middle = .ok (a, rest) := by
  unfold Reader.afterColon at h
  dsimp only at h
  split at h
  next => cases h
  next tail htext => exact ⟨tail, skips_cons_of_skipSpace (by decide) htext, h⟩
  next => cases h

theorem measured_gatherMember {inner : Reader μ Value} (hinner : inner.Measured) :
    MeasuredMember (fun members => members) (gatherMember inner) := by
  intro state state' name text rest h
  obtain ⟨⟨v, middle⟩, hrun, heq⟩ := map_eq_ok h
  cases heq
  obtain ⟨later, hskips, hrun⟩ := measured_afterColon hrun
  obtain ⟨levels, hpasses, hv⟩ := hinner hrun
  exact ⟨levels, hpasses.behind hskips, Gathers.cons hv _⟩

theorem fits_array {items : List Value} {levels : Nat} (h : ∀ v ∈ items, v.Fits levels) :
    (Value.array items).Fits (levels + 1) :=
  ⟨Nat.succ_le_succ (itemsDepth_le_iff.2 fun v hv => (h v hv).depth_le), .array fun v hv =>
    (h v hv).finite⟩

theorem fits_object {members : List (String × Value)} {levels : Nat}
    (h : ∀ m ∈ members, m.2.Fits levels) : (Value.object members).Fits (levels + 1) :=
  ⟨Nat.succ_le_succ (membersDepth_le_iff.2 fun m hm => (h m hm).depth_le), .object fun m hm =>
    (h m hm).finite⟩

theorem passes_word {c first : Char} {expected : List Char} {v v' : Value} (hc : c = first)
    (hplain : ∀ d ∈ first :: expected, Brackets.IsPlain d)
    (h : (readLiteral (μ := μ) expected text).map (fun rest => (v, rest)) = .ok (v', rest)) :
    v' = v ∧ Passes (c :: text) rest 0 := by
  rw [List.forall_mem_cons] at hplain
  obtain ⟨rest', hliteral, heq⟩ := map_eq_ok h
  cases heq
  exact ⟨rfl, ((skips_readLiteral hplain.2 hliteral).cons (hc ▸ hplain.1)).passes⟩

theorem measured_runValue {inner? : Option (Reader μ Value)} {v : Value}
    (hinner : ∀ inner, inner? = some inner → inner.Measured)
    (h : runValue inner? text = .ok (v, rest)) :
    ∃ levels, Passes text rest levels ∧ v.Fits levels := by
  unfold runValue at h
  split at h
  next => cases h
  next c tail htext =>
    have hspace := skips_of_skipSpace htext
    have hleaf : ∀ {v : Value}, v.depth = 0 → v.Finite → Passes (c :: tail) rest 0 →
        ∃ levels, Passes text rest levels ∧ v.Fits levels := by
      intro v hdepth hfinite hpasses
      exact ⟨0, hpasses.behind hspace, Nat.le_of_eq hdepth, hfinite⟩
    split at h
    next hc =>
      obtain ⟨rfl, hpasses⟩ := passes_word hc (by decide) h
      exact hleaf rfl .null hpasses
    split at h
    next hc =>
      obtain ⟨rfl, hpasses⟩ := passes_word hc (by decide) h
      exact hleaf rfl (.bool _) hpasses
    split at h
    next hc =>
      obtain ⟨rfl, hpasses⟩ := passes_word hc (by decide) h
      exact hleaf rfl (.bool _) hpasses
    split at h
    next hc =>
      obtain ⟨⟨n, rest'⟩, hnumber, heq⟩ := map_eq_ok h
      cases heq
      have hread := readsNumber_readNumber hnumber
      have hsign : Brackets.IsPlain c := hc ▸ by decide
      exact hleaf rfl (.number hread.finite) (hread.skips.cons hsign).passes
    split at h
    next =>
      obtain ⟨⟨n, rest'⟩, hnumber, heq⟩ := map_eq_ok h
      cases heq
      have hread := readsNumber_readNumber hnumber
      exact hleaf rfl (.number hread.finite) hread.skips.passes
    split at h
    next hc =>
      obtain ⟨⟨value, rest'⟩, hstring, heq⟩ := map_eq_ok h
      cases heq
      exact hleaf rfl (.string _) (hc ▸ passes_readString hstring)
    split at h
    next hc =>
      split at h
      next => cases h
      next inner =>
        obtain ⟨⟨items, rest'⟩, hitems, heq⟩ := map_eq_ok h
        cases heq
        obtain ⟨levels, hpasses, hfits⟩ := measured_readElements (hinner inner rfl) hitems
        exact ⟨levels + 1, (hpasses.bracketed (Or.inl hc) (Or.inl rfl)).behind hspace,
          fits_array hfits⟩
    split at h
    next hc =>
      split at h
      next => cases h
      next inner =>
        obtain ⟨⟨members, rest'⟩, hmembers, heq⟩ := map_eq_ok h
        cases heq
        obtain ⟨levels, hpasses, hgathers⟩ :=
          measured_readMembers (measured_gatherMember (hinner inner rfl)) hmembers
        have hfits : ∀ m ∈ members.reverse, m.2.Fits levels := by
          intro m hm
          exact (hgathers m (List.mem_reverse.1 hm)).resolve_left List.not_mem_nil
        exact ⟨levels + 1, (hpasses.bracketed (Or.inr hc) (Or.inr rfl)).behind hspace,
          fits_object hfits⟩
    next => cases h

theorem measured_valueReader (levels : Nat) : (valueReader (μ := μ) levels).Measured := by
  induction levels with
  | zero =>
      intro text rest v h
      have hread : runValue (μ := μ) none text = .ok (v, rest) := h
      refine measured_runValue ?_ hread
      rintro inner ⟨⟩
  | succ levels ih =>
      intro text rest v h
      have hread : runValue (μ := μ) (some (valueReader levels)) text = .ok (v, rest) := h
      refine measured_runValue ?_ hread
      rintro inner ⟨⟩
      exact ih

end Json
end FilterLang
