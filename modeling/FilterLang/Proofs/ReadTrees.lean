import FilterLang.Proofs.JsonRoundTrip
import FilterLang.Proofs.NodeParts
import FilterLang.Proofs.ReadStamps
import FilterLang.Proofs.ReadValues

/-!
# Trees that were read can be written and read again

Whatever a tree holds was read from some value of the text.  So its numbers are
finite, its times have whole minutes of offset, and each of its nodes stands inside
brackets of the text, as many as it stands in when it is written.

Written again, the tree nests no deeper than the text, with one exception: a group
is written with brackets for its children even if it has none, and the text may
leave these out.
-/

namespace FilterLang

-- What holds of each character of a list is decided along the list.
attribute [local instance (high)] List.decidableBAll

namespace Interchange

open FilterLang.Expr (StandsAt)
open Json (Value Passes Gathers MeasuredMember map_eq_ok)

/-! ## Envelopes -/

theorem passes_runKind {text rest : List Char} {k : Kind} (h : runKind text = .ok (k, rest)) :
    ∃ levels, Passes text rest levels := by
  unfold runKind at h
  split at h
  next => cases h
  next => cases h
  next =>
    have hpasses : ∀ {v : Value} {rest : List Char},
        Json.runValue (μ := Mismatch) none text = .ok (v, rest) →
          ∃ levels, Passes text rest levels := by
      intro v rest hread
      obtain ⟨levels, hpasses, -⟩ := Json.measured_runValue (by rintro inner ⟨⟩) hread
      exact ⟨levels, hpasses⟩
    split at h
    next => cases h
    next hread =>
      split at h
      next =>
        cases h
        exact hpasses hread
      next => cases h
    next => cases h

theorem measured_openedMember :
    MeasuredMember (fun opened : Opened => opened.members) openedMember := by
  intro opened opened' name text rest h
  unfold openedMember at h
  split at h
  next =>
    split at h
    next => exact absurd h repeatedKind_ne_ok
    next =>
      obtain ⟨⟨k, middle⟩, hrun, heq⟩ := map_eq_ok h
      cases heq
      obtain ⟨later, hskips, hkind⟩ := Json.measured_afterColon hrun
      obtain ⟨levels, hpasses⟩ := passes_runKind hkind
      exact ⟨levels, hpasses.behind hskips, Gathers.refl _ levels⟩
  next =>
    obtain ⟨⟨v, middle⟩, hrun, heq⟩ := map_eq_ok h
    cases heq
    obtain ⟨later, hskips, hvalue⟩ := Json.measured_afterColon hrun
    obtain ⟨levels, hpasses, hv⟩ := Json.measured_valueReader _ hvalue
    exact ⟨levels, hpasses.behind hskips, Gathers.cons hv _⟩

/-- The text of an envelope opens one bracket around brackets that its values fit into. -/
theorem measured_readEnvelope {text rest : List Char} {envelope : Envelope}
    (h : readEnvelope text = .ok (envelope, rest)) :
    ∃ levels, Passes text rest (levels + 1) ∧ ∀ v ∈ envelope.body.values, v.Fits levels := by
  unfold readEnvelope at h
  split at h
  next tail htext =>
    have hspace := Json.skips_of_skipSpace htext
    obtain ⟨⟨opened, middle⟩, hmembers, h⟩ := bind_eq_ok.1 h
    obtain ⟨levels, hpasses, hgathers⟩ := Json.measured_readMembers measured_openedMember hmembers
    dsimp only at h
    split at h
    next =>
      cases h
      refine ⟨levels, (hpasses.bracketed (Or.inr rfl) (Or.inr rfl)).behind hspace, ?_⟩
      intro v hv
      obtain ⟨m, hm, rfl⟩ := List.mem_map.1 hv
      exact (hgathers m (List.mem_reverse.1 hm)).resolve_left List.not_mem_nil
    next => cases h
  next tail htext =>
    have hspace := Json.skips_of_skipSpace htext
    split at h
    next => cases h
    next => cases h
    next =>
      obtain ⟨⟨k, middle⟩, hkind, h⟩ := bind_eq_ok.1 h
      obtain ⟨⟨items, after⟩, hitems, heq⟩ := bind_eq_ok.1 h
      cases heq
      obtain ⟨first, hfirst⟩ := passes_runKind hkind
      obtain ⟨levels, hpasses, hfits⟩ :=
        Json.measured_moreElements (Json.measured_valueReader _) hitems
      refine ⟨max first levels,
        ((hfirst.trans hpasses).bracketed (Or.inl rfl) (Or.inl rfl)).behind hspace, ?_⟩
      intro v hv
      exact (hfits v hv).mono (Nat.le_max_right ..)
  next =>
    obtain ⟨⟨v, middle⟩, -, h⟩ := bind_eq_ok.1 h
    cases h

/-- A text that reads as a tree holds what the tree was decoded from, inside its
outermost brackets. -/
theorem exists_decodedFrom_of_ofJson {Op : Type} [OperatorForm Op] {text : String} {e : Expr Op}
    (h : Expr.ofJson text = .ok e) :
    ∃ values levels, DecodedFrom values e ∧ (∀ v ∈ values, v.Fits levels) ∧
      Json.nesting text.toList = levels + 1 := by
  obtain ⟨envelope, rest, hread, hdecode, hend⟩ := exists_envelope_of_ofJson h
  obtain ⟨levels, hpasses, hfits⟩ := measured_readEnvelope hread
  have hall := hpasses.trans (Json.passes_of_skipSpace hend)
  rw [Nat.max_zero] at hall
  exact ⟨_, levels, decodedFrom_envelope hdecode, hfits, hall.nesting⟩

/-! ## Nodes inside the brackets of the text -/

variable {Op : Type} [OperatorForm Op]

/-- A tree whose literals can be written, all of whose brackets, those of empty groups
aside, nest no deeper than `depth`. -/
structure Bounded (e : Expr Op) (depth : Nat) : Prop where
  numbers : ∀ id value, .number id value ∈ e.nodes →
    ∃ negative magnitude, value = .finite negative magnitude
  times : ∀ id value, .time id value ∈ e.nodes → value.Exchangeable ∧ value.shown = value
  level_le : ∀ level n, e.StandsAt level n → level ≤ depth
  children : ∀ level id children, e.StandsAt level (.group id children) →
    children = [] ∨ level + 1 ≤ depth

theorem HeldIn.depth_le {v held : Value} {brackets : Nat} (h : HeldIn v brackets held) :
    held.depth + brackets ≤ v.depth + 1 := by
  cases h with
  | self => exact Nat.le_refl _
  | @item items _ hmem =>
      have hle := Json.itemsDepth_le_iff.1 (Nat.le_refl (Json.itemsDepth items)) held hmem
      rw [Value.depth]
      omega

theorem HeldIn.finite {v held : Value} {brackets : Nat} (h : HeldIn v brackets held)
    (hv : v.Finite) : held.Finite := by
  cases h with
  | self => exact hv
  | item hmem =>
      cases hv with
      | array hitems => exact hitems held hmem

theorem Holds.fits {v : Value} {values : List Value} {levels : Nat} (h : Holds v values)
    (hdepth : v.depth ≤ levels + 1) (hv : v.Finite) : ∀ w ∈ values, w.Fits levels := by
  cases h with
  | object members =>
      cases hv with
      | object hfinite =>
          intro w hw
          obtain ⟨m, hm, rfl⟩ := List.mem_map.1 hw
          have hle := Json.membersDepth_le_iff.1 (Nat.le_of_succ_le_succ hdepth)
          exact ⟨hle m hm, hfinite m hm⟩
  | array tag items =>
      cases hv with
      | array hfinite =>
          intro w hw
          have hmem := List.mem_cons_of_mem tag hw
          have hle := Json.itemsDepth_le_iff.1 (Nat.le_of_succ_le_succ hdepth)
          exact ⟨hle w hmem, hfinite w hmem⟩

theorem Holds.depth_pos {v : Value} {values : List Value} (h : Holds v values) : 0 < v.depth := by
  cases h with
  | object | array => exact Nat.succ_pos _

/-- What an operand was decoded from fits into fewer levels, by the brackets of the node. -/
theorem DecodedFrom.exists_operand {values : List Value} {e operand : Expr Op} {levels : Nat}
    (h : DecodedFrom values e) (hfits : ∀ v ∈ values, v.Fits levels)
    (hmem : operand ∈ e.operands) :
    ∃ values' inner, DecodedFrom values' operand ∧ (∀ v ∈ values', v.Fits inner) ∧
      inner + e.brackets ≤ levels := by
  obtain ⟨v, hv, held, hheld, hdecode⟩ := h.operand operand hmem
  obtain ⟨values', hholds, hoperand⟩ := exists_decodedFrom hdecode
  have hpositive := hholds.depth_pos
  have hlevels := (hfits v hv).depth_le
  have hdepth := hheld.depth_le
  have hinner : held.depth ≤ (held.depth - 1) + 1 := by omega
  exact ⟨values', held.depth - 1, hoperand, hholds.fits hinner (hheld.finite (hfits v hv).finite),
    by omega⟩

theorem DecodedFrom.bounded {values : List Value} {e : Expr Op} {levels : Nat}
    (h : DecodedFrom values e) (hfits : ∀ v ∈ values, v.Fits levels) : Bounded e (levels + 1) := by
  induction e using Expr.operandInduction generalizing values levels with
  | h e ih =>
      have hbelow : ∀ operand ∈ e.operands, ∃ inner, Bounded operand (inner + 1) ∧
          inner + e.brackets ≤ levels := by
        intro operand hmem
        obtain ⟨values', inner, hoperand, hfits', hle⟩ := h.exists_operand hfits hmem
        exact ⟨inner, ih operand hmem hoperand hfits', hle⟩
      constructor
      · intro id value hmem
        rcases Expr.mem_nodes.1 hmem with hself | ⟨operand, hoperand, hn⟩
        · obtain ⟨n, hn, rfl⟩ := h.number id value hself.symm
          cases (hfits _ hn).finite with
          | number hfinite => exact hfinite
        · obtain ⟨inner, hbounded, -⟩ := hbelow operand hoperand
          exact hbounded.numbers id value hn
      · intro id value hmem
        rcases Expr.mem_nodes.1 hmem with hself | ⟨operand, hoperand, hn⟩
        · obtain ⟨text, htext⟩ := h.time id value hself.symm
          exact Calendar.Moment.exchangeable_of_ofStamp htext
        · obtain ⟨inner, hbounded, -⟩ := hbelow operand hoperand
          exact hbounded.times id value hn
      · intro level n hn
        cases hn with
        | self => exact Nat.le_add_left 1 levels
        | operand hmem hn =>
            obtain ⟨inner, hbounded, hle⟩ := hbelow _ hmem
            have hlevel := hbounded.level_le _ n hn
            omega
      · intro level id children hn
        cases hn with
        | self =>
            refine (h.children id children rfl).imp_right fun ⟨items, hitems⟩ => ?_
            have hdepth := (hfits _ hitems).depth_le
            rw [Value.depth] at hdepth
            omega
        | operand hmem hn =>
            obtain ⟨inner, hbounded, hle⟩ := hbelow _ hmem
            refine (hbounded.children _ id children hn).imp_right fun hlevel => ?_
            omega

/-- Written out, a bounded tree nests deeper only for an empty group that stands in the
deepest brackets. -/
theorem Bounded.depth_le {e : Expr Op} {depth : Nat} {v : Value} (h : Bounded e depth)
    (hv : encode e = .ok v) (hempty : ¬ ∃ id, e.StandsAt depth (.group id [])) :
    v.depth ≤ depth := by
  obtain ⟨level, n, hn, hdepth⟩ := exists_standsAt_of_encode hv
  have hlevel := h.level_le level n hn
  cases n with
  | group id children =>
      rw [Expr.brackets] at hdepth
      rcases h.children level id children hn with rfl | hinner
      · have hne : level ≠ depth := by
          rintro rfl
          exact hempty ⟨id, hn⟩
        omega
      · omega
  | binary | unary | ternary | reference | number | boolean | string | time =>
      simp only [Expr.brackets] at hdepth
      omega

/-- The brackets written for the children of such a group are one pair, and there is no
other pair inside them. -/
theorem Bounded.depth_eq {e : Expr Op} {depth : Nat} {v : Value} {id : String}
    (h : Bounded e depth) (hv : encode e = .ok v) (hempty : e.StandsAt depth (.group id [])) :
    v.depth = depth + 1 := by
  have hle := level_le_of_encode hempty hv
  obtain ⟨level, n, hn, hdepth⟩ := exists_standsAt_of_encode hv
  have hlevel := h.level_le level n hn
  have hbrackets : n.brackets ≤ 2 := n.brackets_le
  rw [Expr.brackets] at hle
  omega

theorem bounded_of_ofJson {text : String} {e : Expr Op} (h : Expr.ofJson text = .ok e) :
    Bounded e (Json.nesting text.toList) := by
  obtain ⟨values, levels, hdecoded, hfits, hnesting⟩ := exists_decodedFrom_of_ofJson h
  rw [hnesting]
  exact hdecoded.bounded hfits

end Interchange

namespace Expr

open Interchange

variable {Op : Type} [OperatorForm Op]

/-- The numbers of the tree are finite, its times have whole minutes of offset, and each
of its times comes back when it is written and read on its own. -/
structure LiteralsComeBack (e : Expr Op) : Prop where
  numbers : ∀ id value, number id value ∈ e.nodes →
    ∃ negative magnitude, value = .finite negative magnitude
  offsets : ∀ id value, time id value ∈ e.nodes → value.offset % 60 = 0
  times : ∀ id value, time id value ∈ e.nodes →
    (time id value : Expr Op).throughJson? = some (time id value)

/-- The tree can be written, and what is written nests no deeper than a text, unless an
empty group stands in the deepest brackets of that text: its children are written too. -/
structure NestsAs (e : Expr Op) (text : String) : Prop where
  exists_written : ∃ written, e.toJson = .ok written
  nesting_le : ∀ written, e.toJson = .ok written →
    (¬ ∃ id, e.StandsAt (Json.nesting text.toList) (group id [])) →
      Json.nesting written.toList ≤ Json.nesting text.toList
  nesting_eq : ∀ written, e.toJson = .ok written →
    (∃ id, e.StandsAt (Json.nesting text.toList) (group id [])) →
      Json.nesting written.toList = Json.nesting text.toList + 1

theorem literalsComeBack_of_ofJson {text : String} {e : Expr Op} (h : ofJson text = .ok e) :
    e.LiteralsComeBack := by
  have hbounded := bounded_of_ofJson h
  constructor
  · exact hbounded.numbers
  · intro id value hmem
    exact (hbounded.times id value hmem).1.1
  · intro id value hmem
    obtain ⟨hexchangeable, hshown⟩ := hbounded.times id value hmem
    rw [throughJson?_time id hexchangeable, hshown]

theorem nestsAs_of_ofJson {text : String} {e : Expr Op} (h : ofJson text = .ok e)
    (hoperators : ∀ op ∈ e.operators, ∃ written, OperatorForm.write op = .ok written) :
    e.NestsAs text := by
  have hbounded := bounded_of_ofJson h
  constructor
  · exact (exists_toJson_iff e).2 hoperators
  · intro written hwritten hempty
    obtain ⟨v, hv, -⟩ := encode_of_toJson hwritten
    rw [nesting_of_toJson hwritten hv]
    exact hbounded.depth_le hv hempty
  · intro written hwritten ⟨id, hempty⟩
    obtain ⟨v, hv, -⟩ := encode_of_toJson hwritten
    rw [nesting_of_toJson hwritten hv]
    exact hbounded.depth_eq hv hempty

/-- The literals of a tree that was read come back, and the tree can be written if its
operators can.  It then nests no deeper than the text it was read from, but for the
children of an empty group in the deepest brackets. -/
theorem read_trees_stay_writable :
    (∀ (text : String) (e : Expr Token), ofJson text = .ok e →
      e.LiteralsComeBack ∧ ((∀ op ∈ e.operators, op.isOperator = true) → e.NestsAs text)) ∧
    ∀ (text : String) (e : Expr String), ofJson text = .ok e →
      e.LiteralsComeBack ∧ e.NestsAs text := by
  constructor
  · intro text e h
    refine ⟨literalsComeBack_of_ofJson h, fun hoperators => nestsAs_of_ofJson h ?_⟩
    intro op hop
    exact (write_token_ok_iff op).2 (hoperators op hop)
  · intro text e h
    exact ⟨literalsComeBack_of_ofJson h, nestsAs_of_ofJson h fun op _ => ⟨op, rfl⟩⟩

/-- In the layout as arrays, any stamp is read as a time below an operator. -/
theorem ofJson_negated_time {text : String} {value : Calendar.Moment}
    (h : Calendar.Moment.ofStamp text.toList = .ok value) :
    ofJson (String.ofList (Json.Value.array [.string Kind.unary.name, .string "", .string "not",
      .array [.string Kind.time.name, .string "", .string text]]).text) =
        .ok (unary "" (Token.keyword .not) (some (time "" value))) := by
  have hunary : kindOf (.string Kind.unary.name) = .ok .unary := rfl
  have htime : kindOf (.string Kind.time.name) = .ok .time := rfl
  have hnot : OperatorForm.read "not" = .ok (Token.keyword .not) := rfl
  have hstamp : readTime (.string text) = .ok value := by
    rw [readTime, h]
    rfl
  have hdecode : (decode (.array [.string Kind.unary.name, .string "", .string "not",
      .array [.string Kind.time.name, .string "", .string text]])).toOption =
        some (unary "" (Token.keyword .not) (some (time "" value))) := by
    simp only [decode, hunary, htime, Kind.fields, decodeItems, Draft.fill, readText, hnot, hstamp,
      isNull, Bool.false_eq_true, ↓reduceIte, bind, Except.bind, Except.map]
    rfl
  rw [← Json.toOption_eq_some, toOption_ofJson_text]
  exact hdecode

/-- A leap second in an array, and a group whose children the text leaves out. -/
theorem read_trees_stay_writable_in_a_leap_second :
    (ofJson "[\"unary\",\"\",\"not\",[\"time_literal\",\"\",\"2017-01-01t00:59:60.5+01:00\"]]" =
        .ok (unary "" (Token.keyword .not)
          (some (time "" ⟨⟨1483228799, 1500000000, by decide⟩, 3600, by decide⟩))) ∧
      (unary "" (Token.keyword .not)
        (some (time "" ⟨⟨1483228799, 1500000000, by decide⟩, 3600, by decide⟩))).LiteralsComeBack ∧
      (unary "" (Token.keyword .not)
        (some (time "" ⟨⟨1483228799, 1500000000, by decide⟩, 3600, by decide⟩))).NestsAs
          "[\"unary\",\"\",\"not\",[\"time_literal\",\"\",\"2017-01-01t00:59:60.5+01:00\"]]") ∧
    ofJson "[\"unary\",\"\",\"~\",\x7b\"type\":\"group\"\x7d]" =
        .ok (unary "" "~" (some (group "" []))) ∧
      (unary "" "~" (some (group "" []))).LiteralsComeBack ∧
      (unary "" "~" (some (group "" []))).NestsAs
        "[\"unary\",\"\",\"~\",\x7b\"type\":\"group\"\x7d]" := by
  constructor
  · have hstamp : Calendar.Moment.ofStamp "2017-01-01t00:59:60.5+01:00".toList =
        .ok ⟨⟨1483228799, 1500000000, by decide⟩, 3600, by decide⟩ := by
      rw [← Json.toOption_eq_some]
      decide +kernel
    have hread := ofJson_negated_time hstamp
    have htree := read_trees_stay_writable.1 _ _ hread
    exact ⟨hread, htree.1, htree.2 (by decide)⟩
  · have hread : ofJson (String.ofList (Json.Value.array [.string Kind.unary.name, .string "",
        .string "~", .object [(tagName, .string Kind.group.name)]]).text) =
          .ok (unary "" "~" (some (group "" []))) := by
      rw [← Json.toOption_eq_some, toOption_ofJson_text]
      rfl
    exact ⟨hread, read_trees_stay_writable.2 _ _ hread⟩

/-- A group is written with brackets for its children, which the text it was read from
does without. -/
theorem bare_group_nests_deeper_when_written :
    ofJson "\x7b\"type\":\"group\"\x7d" = .ok (group "" [] : Expr Token) ∧
    (∀ op ∈ (group "" [] : Expr Token).operators, op.isOperator = true) ∧
    ∃ written, (group "" [] : Expr Token).toJson = .ok written ∧
      Json.nesting "\x7b\"type\":\"group\"\x7d".toList < Json.nesting written.toList := by
  refine ⟨?_, by decide, "\x7b\"type\":\"group\",\"id\":\"\",\"children\":[]\x7d", rfl, by decide⟩
  have hread : (ofJson (String.ofList (Json.Value.object
      [(tagName, .string Kind.group.name)]).text)).toOption = some (group "" [] : Expr Token) := by
    rw [toOption_ofJson_text]
    rfl
  exact Json.toOption_eq_some.1 hread

end Expr
end FilterLang
