import FilterLang.Proofs.CivilTime
import FilterLang.Proofs.QuotedGrammar
import FilterLang.Proofs.WrittenTokens

/-!
# The grammar of lexemes

Which texts are lexemes and what tokens they denote, said without a scan.  Words,
numbers and symbols are told apart by their first character, and so are quoted
forms; a time begins like a number but is none, since a dash stands at its fifth
place.

Each kind of lexeme comes with the reading that the lexer makes of such a text on
its own.  So a text denotes at most one token.
-/

namespace FilterLang

open Text (isWordStart isWordChar)
open Text.Quoted (IsQuote Items identQuote stringQuote)

-- Powers of natural numbers are `Nat.pow`, whatever else is in scope.
attribute [local instance (high)] instPowNat

-- What holds of each character of a list or an option is decided along it.
attribute [local instance (high)] List.decidableBAll Option.decidableForallMem

/-! ## Words, symbols and numbers -/

/-- A letter or underscore, then letters, digits and underscores. -/
def IsWord : List Char → Prop
  | [] => False
  | c :: tail => isWordStart c = true ∧ ∀ d ∈ tail, isWordChar d = true

/-- Digits, or digits around one point, and the number nearest to their value. -/
inductive NumberText : List Char → Binary64 → Prop
  | whole {digits : List Char} (hne : digits ≠ []) (hdigits : ∀ c ∈ digits, c.isDigit = true) :
      NumberText digits
        (.ofMagnitude? false (Magnitude.ofDecimal? (Nat.ofDigitChars 10 digits 0) 0))
  | point {whole fraction : List Char} (hne : whole ≠ []) (hne' : fraction ≠ [])
      (hwhole : ∀ c ∈ whole, c.isDigit = true) (hfraction : ∀ c ∈ fraction, c.isDigit = true) :
      NumberText (whole ++ '.' :: fraction)
        (.ofMagnitude? false (Magnitude.ofDecimal?
          (Nat.ofDigitChars 10 (whole ++ fraction) 0) (-fraction.length)))

theorem Symbol.ofText?_text (s : Symbol) : Symbol.ofText? s.text.toList = some s := by
  cases s <;> decide

theorem IsWord.isWordChar {word : List Char} (h : IsWord word) :
    ∀ c ∈ word, isWordChar c = true := by
  cases word with
  | nil => cases h
  | cons c tail =>
      rw [List.forall_mem_cons]
      exact ⟨Text.isWordChar_of_isWordStart h.1, h.2⟩

theorem NumberText.exists_cons {text : List Char} {value : Binary64} (h : NumberText text value) :
    ∃ c tail, text = c :: tail ∧ c.isDigit = true := by
  cases h with
  | whole hne hdigits =>
      obtain ⟨c, tail, rfl⟩ := List.exists_cons_of_ne_nil hne
      exact ⟨c, tail, rfl, hdigits c (List.mem_cons_self ..)⟩
  | point hne _ hwhole _ =>
      obtain ⟨c, tail, rfl⟩ := List.exists_cons_of_ne_nil hne
      exact ⟨c, _, rfl, hwhole c (List.mem_cons_self ..)⟩

theorem NumberText.ofText? {text : List Char} {value : Binary64} (h : NumberText text value) :
    Binary64.ofText? text = some value := by
  cases h with
  | whole hne hdigits =>
      have hend : ∀ c ∈ ([] : List Char).head?, c.isDigit = false := by simp
      obtain ⟨htake, hdrop⟩ := Text.takeWhile_isDigit hdigits hend
      rw [List.append_nil] at htake hdrop
      unfold Binary64.ofText?
      rw [htake, hdrop]
      simp [hne]
  | point hne hne' hwhole hfraction => exact Binary64.ofText?_point hwhole hfraction hne hne'

/-- The longest number at the start of a text that begins with a digit. -/
theorem exists_numberText (c : Char) (hc : c.isDigit = true) (tail : List Char) :
    ∃ value, NumberText (Scan.numberLexeme (c :: tail)).1 value := by
  have hne : (c :: tail).takeWhile Char.isDigit ≠ [] := by simp [hc]
  have hdigits : ∀ text : List Char, ∀ d ∈ text.takeWhile Char.isDigit, d.isDigit = true := by
    intro text d hd
    exact List.all_eq_true.1 List.all_takeWhile d hd
  unfold Scan.numberLexeme
  split
  next d rest htail =>
    split
    next hd => exact ⟨_, .point hne (by simp [hd]) (hdigits _) (hdigits _)⟩
    next => exact ⟨_, .whole hne (hdigits _)⟩
  next => exact ⟨_, .whole hne (hdigits _)⟩

/-- No number at the start of a text is longer than the one that is scanned. -/
theorem NumberText.length_le {text front : List Char} {value : Binary64}
    (h : NumberText front value) (hfront : front <+: text) :
    front.length ≤ (Scan.numberLexeme text).1.length := by
  obtain ⟨rest, rfl⟩ := hfront
  cases h with
  | whole hne hdigits =>
      have htake : front <+: (front ++ rest).takeWhile Char.isDigit := by
        rw [List.takeWhile_append_of_pos hdigits]
        exact List.prefix_append ..
      have hle := htake.length_le
      unfold Scan.numberLexeme
      split
      next =>
        split
        · simp only [List.length_append]
          omega
        · exact hle
      next => exact hle
  | @point whole fraction hne hne' hwhole hfraction =>
      have hpoint : ∀ c ∈ ('.' :: (fraction ++ rest)).head?, c.isDigit = false := by simp
      obtain ⟨htake, hdrop⟩ := Text.takeWhile_isDigit hwhole hpoint
      have hle : fraction <+: (fraction ++ rest).takeWhile Char.isDigit := by
        rw [List.takeWhile_append_of_pos hfraction]
        exact List.prefix_append ..
      obtain ⟨d, fraction', rfl⟩ := List.exists_cons_of_ne_nil hne'
      have hd := hfraction d (List.mem_cons_self ..)
      have hle' := hle.length_le
      unfold Scan.numberLexeme
      rw [List.append_assoc, List.cons_append, htake, hdrop]
      simp only [List.cons_append] at hle' ⊢
      rw [if_pos hd]
      simp only [List.length_append, List.length_cons] at hle' ⊢
      omega

/-! ## Times -/

/-- The numbers in the fields of a time. -/
structure TimeFields where
  year : Nat
  month : Nat
  day : Nat
  hour : Nat
  minute : Nat
  second : Nat

structure IsField (count value : Nat) (digits : List Char) : Prop where
  length_eq : digits.length = count
  isDigit : ∀ c ∈ digits, c.isDigit = true
  value_eq : Nat.ofDigitChars 10 digits 0 = value

/-- Texts of the shape `dddd-dd-dd dd:dd:dd`, where `d` stands for any digit, and
the numbers in their fields. -/
inductive ShowsFields : List Char → TimeFields → Prop
  | fields {year month day hour minute second : List Char} {f : TimeFields}
      (hyear : IsField 4 f.year year) (hmonth : IsField 2 f.month month)
      (hday : IsField 2 f.day day) (hhour : IsField 2 f.hour hour)
      (hminute : IsField 2 f.minute minute) (hsecond : IsField 2 f.second second) :
      ShowsFields (year ++ '-' :: (month ++ '-' :: (day ++ ' ' :: (hour ++ ':' ::
        (minute ++ ':' :: second))))) f

/-- What may stand behind the seconds, and the nanoseconds that it denotes. -/
inductive SecondFraction : List Char → Nat → Prop
  | none : SecondFraction [] 0
  | digits {digits : List Char} (hne : digits ≠ []) (hlength : digits.length ≤ 9)
      (hdigits : ∀ c ∈ digits, c.isDigit = true) :
      SecondFraction ('.' :: digits) (Nat.ofDigitChars 10 digits 0 * 10 ^ (9 - digits.length))

/-- A time whose fields are a real date and time of day, and what calendar and
clock show then. -/
inductive TimeText : List Char → Calendar.Civil → Prop
  | time {clock fraction : List Char} {f : TimeFields} {date : Calendar.Date} {nanos : Nat}
      (hclock : ShowsFields clock f) (hfraction : SecondFraction fraction nanos)
      (hdate : Calendar.Date.of? f.year f.month f.day = some date)
      (hrange : Calendar.Civil.clockInRange f.hour f.minute f.second = true) :
      TimeText (clock ++ fraction) ⟨date, f.hour, f.minute, f.second, nanos⟩

theorem exists_isField {count : Nat} {digits : List Char} (hlength : digits.length = count)
    (hdigits : ∀ c ∈ digits, c.isDigit = true) : ∃ value, IsField count value digits :=
  ⟨_, hlength, hdigits, rfl⟩

theorem IsField.lt {count value : Nat} {digits : List Char} (h : IsField count value digits) :
    value < 10 ^ count := by
  have hlt := Text.ofDigitChars_lt h.isDigit
  rwa [h.value_eq, h.length_eq] at hlt

theorem ShowsFields.exists_cons {clock : List Char} {f : TimeFields} (h : ShowsFields clock f) :
    ∃ c tail, clock = c :: tail ∧ c.isDigit = true := by
  cases h with
  | @fields year _ _ _ _ _ _ hyear =>
      cases year with
      | nil => exact absurd hyear.length_eq (by decide)
      | cons c year => exact ⟨c, _, rfl, hyear.isDigit c (List.mem_cons_self ..)⟩

theorem ShowsFields.length_eq {clock : List Char} {f : TimeFields} (h : ShowsFields clock f) :
    clock.length = 19 := by
  cases h with
  | fields hyear hmonth hday hhour hminute hsecond =>
      simp only [List.length_append, List.length_cons, hyear.length_eq, hmonth.length_eq,
        hday.length_eq, hhour.length_eq, hminute.length_eq, hsecond.length_eq]

/-- The longest number at the start of a time is its year. -/
theorem ShowsFields.numberLexeme_length {clock : List Char} {f : TimeFields}
    (h : ShowsFields clock f) (rest : List Char) :
    (Scan.numberLexeme (clock ++ rest)).1.length = 4 := by
  cases h with
  | @fields year month day hour minute second f hyear =>
      have hdash : ∀ c ∈ ('-' :: (month ++ '-' :: (day ++ ' ' :: (hour ++ ':' ::
          (minute ++ ':' :: second))) ++ rest)).head?, c.isDigit = false := by simp
      obtain ⟨htake, hdrop⟩ := Text.takeWhile_isDigit hyear.isDigit hdash
      rw [List.append_assoc, List.cons_append, Scan.numberLexeme, htake, hdrop]
      exact hyear.length_eq

theorem ShowsFields.year_lt {clock : List Char} {f : TimeFields} (h : ShowsFields clock f) :
    f.year < 10000 := by
  cases h with
  | fields hyear => exact hyear.lt

theorem SecondFraction.lt {fraction : List Char} {nanos : Nat}
    (h : SecondFraction fraction nanos) : nanos < 1000000000 := by
  cases h with
  | none => decide
  | digits hne hlength hdigits => exact Text.ofDigitChars_mul_pow_lt hdigits hlength

namespace Scan

theorem splitShape_digits (count : Nat) (shape text : List Char) {lexeme rest : List Char} :
    splitShape (List.replicate count 'd' ++ shape) text = some (lexeme, rest) ↔
      ∃ digits lexeme' text', digits.length = count ∧ (∀ c ∈ digits, c.isDigit = true) ∧
        lexeme = digits ++ lexeme' ∧ text = digits ++ text' ∧
        splitShape shape text' = some (lexeme', rest) := by
  induction count generalizing text lexeme with
  | zero => simp
  | succ count ih =>
      rw [List.replicate_succ, List.cons_append]
      constructor
      · intro h
        cases text with
        | nil => contradiction
        | cons c text =>
            rw [splitShape] at h
            split at h
            next hmatch =>
              have hc : c.isDigit = true := by simpa using hmatch
              obtain ⟨⟨lexeme', rest'⟩, hsplit, heq⟩ := Option.map_eq_some_iff.1 h
              cases heq
              obtain ⟨digits, tail, text', hlength, hdigits, rfl, rfl, hrest⟩ :=
                (ih text).1 hsplit
              refine ⟨c :: digits, tail, text', by simp [hlength], ?_, rfl, rfl, hrest⟩
              rw [List.forall_mem_cons]
              exact ⟨hc, hdigits⟩
            next => contradiction
      · rintro ⟨digits, tail, text', hlength, hdigits, rfl, rfl, hrest⟩
        cases digits with
        | nil => contradiction
        | cons c digits =>
            rw [List.forall_mem_cons] at hdigits
            have hlength' : digits.length = count := by simpa using hlength
            have hsplit := (ih (digits ++ text')).2
              ⟨digits, tail, text', hlength', hdigits.2, rfl, rfl, hrest⟩
            rw [List.cons_append, splitShape, if_pos (Or.inl ⟨rfl, hdigits.1⟩), hsplit]
            rfl

theorem splitShape_mark {m : Char} (hm : m ≠ 'd') (shape text : List Char)
    {lexeme rest : List Char} :
    splitShape (m :: shape) text = some (lexeme, rest) ↔
      ∃ lexeme' text', lexeme = m :: lexeme' ∧ text = m :: text' ∧
        splitShape shape text' = some (lexeme', rest) := by
  constructor
  · intro h
    cases text with
    | nil => contradiction
    | cons c text =>
        rw [splitShape] at h
        split at h
        next hmatch =>
          have hc : c = m := by simpa [hm] using hmatch
          obtain ⟨⟨lexeme', rest'⟩, hsplit, heq⟩ := Option.map_eq_some_iff.1 h
          cases heq
          exact ⟨lexeme', text, by rw [hc], by rw [hc], hsplit⟩
        next => contradiction
  · rintro ⟨lexeme', text', rfl, rfl, hsplit⟩
    rw [splitShape, if_pos (Or.inr ⟨hm, rfl⟩), hsplit]
    rfl

theorem timeShape_eq_fields :
    timeShape = List.replicate 4 'd' ++ '-' :: (List.replicate 2 'd' ++ '-' ::
      (List.replicate 2 'd' ++ ' ' :: (List.replicate 2 'd' ++ ':' ::
        (List.replicate 2 'd' ++ ':' :: (List.replicate 2 'd' ++ []))))) := by
  decide

/-- The shape of a time is found exactly where fields are shown. -/
theorem splitShape_timeShape_iff {text lexeme rest : List Char} :
    splitShape timeShape text = some (lexeme, rest) ↔
      (∃ f, ShowsFields lexeme f) ∧ text = lexeme ++ rest := by
  have hdash : '-' ≠ 'd' := by decide
  have hspace : ' ' ≠ 'd' := by decide
  have hcolon : ':' ≠ 'd' := by decide
  rw [timeShape_eq_fields]
  constructor
  · intro h
    obtain ⟨year, _, _, hyear, hyear', rfl, rfl, h₁⟩ := (splitShape_digits ..).1 h
    obtain ⟨_, _, rfl, rfl, h₂⟩ := (splitShape_mark hdash ..).1 h₁
    obtain ⟨month, _, _, hmonth, hmonth', rfl, rfl, h₃⟩ := (splitShape_digits ..).1 h₂
    obtain ⟨_, _, rfl, rfl, h₄⟩ := (splitShape_mark hdash ..).1 h₃
    obtain ⟨day, _, _, hday, hday', rfl, rfl, h₅⟩ := (splitShape_digits ..).1 h₄
    obtain ⟨_, _, rfl, rfl, h₆⟩ := (splitShape_mark hspace ..).1 h₅
    obtain ⟨hour, _, _, hhour, hhour', rfl, rfl, h₇⟩ := (splitShape_digits ..).1 h₆
    obtain ⟨_, _, rfl, rfl, h₈⟩ := (splitShape_mark hcolon ..).1 h₇
    obtain ⟨minute, _, _, hminute, hminute', rfl, rfl, h₉⟩ := (splitShape_digits ..).1 h₈
    obtain ⟨_, _, rfl, rfl, h₁₀⟩ := (splitShape_mark hcolon ..).1 h₉
    obtain ⟨second, _, _, hsecond, hsecond', rfl, rfl, h₁₁⟩ := (splitShape_digits ..).1 h₁₀
    cases h₁₁
    obtain ⟨y, hy⟩ := exists_isField hyear hyear'
    obtain ⟨m, hm⟩ := exists_isField hmonth hmonth'
    obtain ⟨d, hd⟩ := exists_isField hday hday'
    obtain ⟨h, hh⟩ := exists_isField hhour hhour'
    obtain ⟨n, hn⟩ := exists_isField hminute hminute'
    obtain ⟨s, hs⟩ := exists_isField hsecond hsecond'
    refine ⟨⟨⟨y, m, d, h, n, s⟩, ?_⟩, by simp⟩
    rw [List.append_nil]
    exact .fields hy hm hd hh hn hs
  · rintro ⟨⟨f, hf⟩, rfl⟩
    cases hf with
    | fields hyear hmonth hday hhour hminute hsecond =>
        simp only [List.append_assoc, List.cons_append]
        refine (splitShape_digits ..).2 ⟨_, _, _, hyear.length_eq, hyear.isDigit, rfl, rfl, ?_⟩
        refine (splitShape_mark hdash ..).2 ⟨_, _, rfl, rfl, ?_⟩
        refine (splitShape_digits ..).2 ⟨_, _, _, hmonth.length_eq, hmonth.isDigit, rfl, rfl, ?_⟩
        refine (splitShape_mark hdash ..).2 ⟨_, _, rfl, rfl, ?_⟩
        refine (splitShape_digits ..).2 ⟨_, _, _, hday.length_eq, hday.isDigit, rfl, rfl, ?_⟩
        refine (splitShape_mark hspace ..).2 ⟨_, _, rfl, rfl, ?_⟩
        refine (splitShape_digits ..).2 ⟨_, _, _, hhour.length_eq, hhour.isDigit, rfl, rfl, ?_⟩
        refine (splitShape_mark hcolon ..).2 ⟨_, _, rfl, rfl, ?_⟩
        refine (splitShape_digits ..).2 ⟨_, _, _, hminute.length_eq, hminute.isDigit, rfl, rfl, ?_⟩
        refine (splitShape_mark hcolon ..).2 ⟨_, _, rfl, rfl, ?_⟩
        exact (splitShape_digits ..).2 ⟨_, [], _, hsecond.length_eq, hsecond.isDigit,
          (List.append_nil _).symm, rfl, rfl⟩

/-- The fields are read off their places, whatever stands behind the seconds. -/
theorem fieldAt_eq {clock : List Char} {f : TimeFields} (h : ShowsFields clock f)
    (rest : List Char) :
    f = ⟨fieldAt (clock ++ rest) 0 4, fieldAt (clock ++ rest) 5 2, fieldAt (clock ++ rest) 8 2,
      fieldAt (clock ++ rest) 11 2, fieldAt (clock ++ rest) 14 2,
      fieldAt (clock ++ rest) 17 2⟩ ∧ (clock ++ rest).drop 20 = rest.drop 1 := by
  cases h with
  | fields hyear hmonth hday hhour hminute hsecond =>
      obtain ⟨y₁, y₂, y₃, y₄, rfl⟩ := List.length_eq_four.1 hyear.length_eq
      obtain ⟨m₁, m₂, rfl⟩ := List.length_eq_two.1 hmonth.length_eq
      obtain ⟨d₁, d₂, rfl⟩ := List.length_eq_two.1 hday.length_eq
      obtain ⟨h₁, h₂, rfl⟩ := List.length_eq_two.1 hhour.length_eq
      obtain ⟨n₁, n₂, rfl⟩ := List.length_eq_two.1 hminute.length_eq
      obtain ⟨s₁, s₂, rfl⟩ := List.length_eq_two.1 hsecond.length_eq
      simp only [fieldAt, List.cons_append, List.nil_append, List.drop_succ_cons,
        List.drop_zero, List.take_succ_cons, List.take_zero, hyear.value_eq, hmonth.value_eq,
        hday.value_eq, hhour.value_eq, hminute.value_eq, hsecond.value_eq, and_self]

/-- The instant that is read off the fields and the fraction of a time. -/
theorem instantOf?_fields {clock fraction : List Char} {f : TimeFields} {nanos : Nat}
    (hclock : ShowsFields clock f) (hfraction : SecondFraction fraction nanos) :
    instantOf? (clock ++ fraction) =
      (Calendar.Date.of? f.year f.month f.day).bind fun date =>
        if Calendar.Civil.clockInRange f.hour f.minute f.second then
          Calendar.Instant.ofCivil? ⟨date, f.hour, f.minute, f.second, nanos⟩ 0
        else none := by
  have hnanos : Nat.ofDigitChars 10 (fraction.drop 1) 0 * 10 ^ (9 - (fraction.drop 1).length) =
      nanos := by
    cases hfraction with
    | none => rfl
    | digits => rfl
  obtain ⟨hf, hdrop⟩ := fieldAt_eq hclock fraction
  simp only [instantOf?, hdrop, hnanos, hf, Option.bind_eq_bind]

end Scan

namespace TimeText

theorem nanos_lt {text : List Char} {c : Calendar.Civil} (h : TimeText text c) :
    c.nanos < 1000000000 := by
  cases h with
  | time _ hfraction => exact hfraction.lt

theorem clockInRange {text : List Char} {c : Calendar.Civil} (h : TimeText text c) :
    Calendar.Civil.clockInRange c.hour c.minute c.second = true := by
  cases h with
  | time _ _ _ hrange => exact hrange

theorem year_mem {text : List Char} {c : Calendar.Civil} (h : TimeText text c) :
    0 ≤ c.date.year ∧ c.date.year ≤ 9999 := by
  cases h with
  | time hclock _ hdate _ =>
      have hyear := Calendar.Date.year_of_of? hdate
      have hlt := hclock.year_lt
      dsimp only
      omega

theorem instantOf?_eq {text : List Char} {c : Calendar.Civil} (h : TimeText text c) :
    Scan.instantOf? text = Calendar.Instant.ofCivil? c 0 := by
  cases h with
  | time hclock hfraction hdate hrange =>
      rw [Scan.instantOf?_fields hclock hfraction, hdate, Option.bind_some, if_pos hrange]

theorem instantOf?_eq_some_iff {text : List Char} {c : Calendar.Civil} (h : TimeText text c)
    (i : Calendar.Instant) :
    Scan.instantOf? text = some i ↔ i.civil 0 = c ∧ i.LeapEndsMinute 0 := by
  rw [h.instantOf?_eq]
  constructor
  · intro hread
    exact ⟨Calendar.Instant.civil_of_ofCivil? h.clockInRange h.nanos_lt hread,
      i.leapEndsMinute_of_ofCivil? h.nanos_lt rfl hread⟩
  · rintro ⟨rfl, hleap⟩
    rw [i.ofCivil?_civil (Int.zero_emod 60), i.shown_eq_self_iff.2 hleap]

theorem exists_cons {text : List Char} {c : Calendar.Civil} (h : TimeText text c) :
    ∃ d tail, text = d :: tail ∧ d.isDigit = true := by
  cases h with
  | @time clock fraction f date nanos hclock =>
      obtain ⟨d, tail, rfl, hd⟩ := hclock.exists_cons
      exact ⟨d, tail ++ fraction, rfl, hd⟩

theorem exists_fields {text : List Char} {c : Calendar.Civil} (h : TimeText text c) :
    ∃ clock fraction f, text = clock ++ fraction ∧ ShowsFields clock f := by
  cases h with
  | time hclock => exact ⟨_, _, _, rfl, hclock⟩

theorem le_length {text : List Char} {c : Calendar.Civil} (h : TimeText text c) :
    19 ≤ text.length := by
  obtain ⟨clock, fraction, f, rfl, hclock⟩ := h.exists_fields
  rw [List.length_append, hclock.length_eq]
  omega

end TimeText

/-- The texts of times and the instants that they show.  A leap second is the one behind
the last second of its minute. -/
structure InstantText (text : List Char) (i : Calendar.Instant) : Prop where
  timeText : TimeText text (i.civil 0)
  leapEndsMinute : i.LeapEndsMinute 0

theorem InstantText.instantOf? {text : List Char} {i : Calendar.Instant} (h : InstantText text i) :
    Scan.instantOf? text = some i :=
  (h.timeText.instantOf?_eq_some_iff i).2 ⟨rfl, h.leapEndsMinute⟩

/-- Every real date and time of day is the reading of an instant. -/
theorem TimeText.exists_instantText {text : List Char} {c : Calendar.Civil}
    (h : TimeText text c) : ∃ i, InstantText text i ∧ i.civil 0 = c := by
  obtain ⟨i, hread, rfl⟩ := Calendar.Instant.exists_civil_eq h.year_mem h.clockInRange h.nanos_lt
  exact ⟨i, ⟨h, i.leapEndsMinute_of_ofCivil? h.nanos_lt rfl hread⟩, rfl⟩

namespace Scan

/-- A shape whose fields are no real date and time of day is no instant either. -/
theorem instantText_of_instantOf? {clock fraction : List Char} {f : TimeFields} {nanos : Nat}
    {i : Calendar.Instant} (hclock : ShowsFields clock f)
    (hfraction : SecondFraction fraction nanos) (h : instantOf? (clock ++ fraction) = some i) :
    InstantText (clock ++ fraction) i := by
  have hinstant := h
  rw [instantOf?_fields hclock hfraction] at h
  obtain ⟨date, hdate, hrest⟩ := Option.bind_eq_some_iff.1 h
  split at hrest
  next hrange =>
    have htext := TimeText.time hclock hfraction hdate hrange
    obtain ⟨hi, hleap⟩ := (htext.instantOf?_eq_some_iff i).1 hinstant
    exact ⟨hi ▸ htext, hleap⟩
  next => contradiction

theorem timeLexeme?_fields {text lexeme rest : List Char}
    (h : timeLexeme? text = some (lexeme, rest)) :
    ∃ clock fraction f nanos, lexeme = clock ++ fraction ∧ ShowsFields clock f ∧
      SecondFraction fraction nanos := by
  obtain ⟨⟨clock, tail⟩, hsplit, heq⟩ := Option.map_eq_some_iff.1 h
  obtain ⟨⟨f, hclock⟩, -⟩ := splitShape_timeShape_iff.1 hsplit
  dsimp only at heq
  split at heq
  next fraction =>
    split at heq
    next =>
      cases heq
      exact ⟨lexeme, [], f, 0, (List.append_nil _).symm, hclock, .none⟩
    next hne =>
      cases heq
      refine ⟨clock, _, f, _, rfl, hclock, .digits (by simpa using hne) ?_ ?_⟩
      · simp only [List.length_take]
        omega
      · intro c hc
        exact List.all_eq_true.1 List.all_takeWhile c (List.mem_of_mem_take hc)
  next =>
    cases heq
    exact ⟨lexeme, [], f, 0, (List.append_nil _).symm, hclock, .none⟩

/-- Where fields are shown, the lexeme of a time is found, and no fraction that
might follow them is longer than its own. -/
theorem exists_timeLexeme? {clock fraction : List Char} {f : TimeFields} {nanos : Nat}
    (hclock : ShowsFields clock f) (hfraction : SecondFraction fraction nanos)
    (rest : List Char) :
    ∃ lexeme rest', timeLexeme? (clock ++ fraction ++ rest) = some (lexeme, rest') ∧
      (clock ++ fraction).length ≤ lexeme.length := by
  have hsplit : splitShape timeShape (clock ++ fraction ++ rest) =
      some (clock, fraction ++ rest) :=
    splitShape_timeShape_iff.2 ⟨⟨f, hclock⟩, List.append_assoc ..⟩
  rw [timeLexeme?, hsplit, Option.map_some]
  dsimp only
  cases hfraction with
  | none =>
      rw [List.append_nil, List.nil_append]
      split
      next =>
        split
        · exact ⟨_, _, rfl, Nat.le_refl _⟩
        · exact ⟨_, _, rfl, by simp⟩
      next => exact ⟨_, _, rfl, Nat.le_refl _⟩
  | @digits digits hne hlength hdigits =>
      have hrun : digits <+: ((digits ++ rest).takeWhile Char.isDigit).take 9 := by
        rw [List.takeWhile_append_of_pos hdigits, List.prefix_take_iff]
        exact ⟨List.prefix_append .., hlength⟩
      have hne' : (((digits ++ rest).takeWhile Char.isDigit).take 9).isEmpty = false := by
        rw [List.isEmpty_eq_false_iff]
        intro hnil
        rw [hnil] at hrun
        exact hne (List.prefix_nil.1 hrun)
      have hle := hrun.length_le
      simp only [List.cons_append, hne']
      refine ⟨_, _, rfl, ?_⟩
      simp only [List.length_append, List.length_cons]
      omega

end Scan

/-- A text begins with one set of fields at most. -/
theorem ShowsFields.unique {text clock clock' : List Char} {f f' : TimeFields}
    (h : ShowsFields clock f) (h' : ShowsFields clock' f') (hbegins : clock <+: text)
    (hbegins' : clock' <+: text) : f = f' := by
  obtain ⟨rest, rfl⟩ := hbegins
  obtain ⟨rest', heq⟩ := hbegins'
  rw [(Scan.fieldAt_eq h rest).1, (Scan.fieldAt_eq h' rest').1, heq]

/-! ## Lexemes -/

/-- The texts of tokens other than the end. -/
inductive Lexeme : List Char → Token → Prop
  | symbol (s : Symbol) : Lexeme s.text.toList (.symbol s)
  /-- Keywords are spelled in either case. -/
  | keyword {word : List Char} {k : Keyword} (hword : IsWord word)
      (hk : word.map Char.toUpper = k.text.toList) : Lexeme word (.keyword k)
  | name {word : List Char} (hword : IsWord word)
      (hk : ∀ k : Keyword, word.map Char.toUpper ≠ k.text.toList) :
      Lexeme word (.ident (String.ofList word))
  | number {text : List Char} {value : Binary64} (h : NumberText text value) :
      Lexeme text (.number value)
  | time {text : List Char} {i : Calendar.Instant} (h : InstantText text i) :
      Lexeme text (.time i)
  | quotedName {items value : List Char} (h : Items identQuote items value) :
      Lexeme (identQuote :: items ++ [identQuote]) (.ident (String.ofList value))
  | quotedString {items value : List Char} (h : Items stringQuote items value) :
      Lexeme (stringQuote :: items ++ [stringQuote]) (.string (String.ofList value))

theorem IsWord.ofWord?_eq_some_iff (word : List Char) (k : Keyword) :
    Keyword.ofWord? word = some k ↔ word.map Char.toUpper = k.text.toList := by
  constructor
  · intro h
    have hk := List.find?_some h
    exact (beq_iff_eq.1 hk).symm
  · intro h
    have hself : ∀ k : Keyword,
        (Keyword.all.find? fun k' => k'.text.toList == k.text.toList) = some k := by
      intro k
      cases k <;> decide
    rw [Keyword.ofWord?, h, hself k]

theorem IsWord.lexeme {word : List Char} (h : IsWord word) :
    Lexeme word (Scan.wordToken word) := by
  unfold Scan.wordToken
  split
  next k hk => exact .keyword h ((ofWord?_eq_some_iff word k).1 hk)
  next hnone =>
    apply Lexeme.name h
    intro k hk
    have hsome := (ofWord?_eq_some_iff word k).2 hk
    rw [hnone] at hsome
    contradiction

namespace Lexeme

theorem not_quote_of_isWordStart {c : Char} (hc : isWordStart c = true) :
    ¬ (c = identQuote ∨ c = stringQuote) :=
  Scan.not_isQuote_of_isWordChar (Text.isWordChar_of_isWordStart hc)

/-- What the first character of a lexeme tells of the lexeme and its token. -/
def ByFirst (c : Char) (tail : List Char) (t : Token) : Prop :=
  if c = identQuote ∨ c = stringQuote then
    ∃ items value, tail = items ++ [c] ∧ Items c items value ∧
      t = if c = identQuote then .ident (String.ofList value) else .string (String.ofList value)
  else if isWordStart c then IsWord (c :: tail) ∧ t = Scan.wordToken (c :: tail)
  else if c.isDigit then
    (∃ value, NumberText (c :: tail) value ∧ t = .number value) ∨
      ∃ i : Calendar.Instant, InstantText (c :: tail) i ∧ t = .time i
  else ∃ s : Symbol, s.text.toList = c :: tail ∧ t = .symbol s

section

variable {c : Char} {tail : List Char} {t : Token}

theorem byFirst_quote_iff (hc : c = identQuote ∨ c = stringQuote) :
    ByFirst c tail t ↔
      ∃ items value, tail = items ++ [c] ∧ Items c items value ∧
        t = if c = identQuote then .ident (String.ofList value)
          else .string (String.ofList value) := by
  rw [ByFirst, if_pos hc]

theorem byFirst_word_iff (hc : isWordStart c = true) :
    ByFirst c tail t ↔ IsWord (c :: tail) ∧ t = Scan.wordToken (c :: tail) := by
  rw [ByFirst, if_neg (not_quote_of_isWordStart hc), if_pos hc]

theorem byFirst_digit_iff (hc : c.isDigit = true) :
    ByFirst c tail t ↔
      (∃ value, NumberText (c :: tail) value ∧ t = .number value) ∨
        ∃ i : Calendar.Instant, InstantText (c :: tail) i ∧ t = .time i := by
  have hquote : ¬ (c = identQuote ∨ c = stringQuote) := Scan.not_isQuote_of_isDigit hc
  have hword := Text.not_isWordStart_of_isDigit hc
  rw [ByFirst, if_neg hquote, if_neg (by simp [hword]), if_pos hc]

theorem byFirst_symbol_iff (hquote : ¬ (c = identQuote ∨ c = stringQuote))
    (hword : ¬ isWordStart c = true) (hdigit : ¬ c.isDigit = true) :
    ByFirst c tail t ↔ ∃ s : Symbol, s.text.toList = c :: tail ∧ t = .symbol s := by
  rw [ByFirst, if_neg hquote, if_neg hword, if_neg hdigit]

end

/-- The first character of a lexeme tells of what kind it is. -/
theorem byFirst {c : Char} {tail : List Char} {t : Token} (h : Lexeme (c :: tail) t) :
    ByFirst c tail t := by
  generalize htext : c :: tail = text at h
  cases h with
  | symbol s =>
      have hall : ∀ s ∈ Symbol.all, ∀ c ∈ s.text.toList.head?,
          ¬ (c = identQuote ∨ c = stringQuote) ∧ ¬ isWordStart c = true ∧ ¬ c.isDigit = true := by
        decide
      obtain ⟨hquote, hword, hdigit⟩ := hall s s.mem_all c (by simp [← htext])
      exact (byFirst_symbol_iff hquote hword hdigit).2 ⟨s, htext.symm, rfl⟩
  | @keyword word k hword hk =>
      subst htext
      refine (byFirst_word_iff hword.1).2 ⟨hword, ?_⟩
      rw [Scan.wordToken, (IsWord.ofWord?_eq_some_iff _ k).2 hk]
  | @name word hword hk =>
      subst htext
      refine (byFirst_word_iff hword.1).2 ⟨hword, ?_⟩
      unfold Scan.wordToken
      split
      next k hsome => exact absurd ((IsWord.ofWord?_eq_some_iff _ k).1 hsome) (hk k)
      next => rfl
  | @number text value hnumber =>
      subst htext
      obtain ⟨c', tail', heq, hc⟩ := hnumber.exists_cons
      cases heq
      exact (byFirst_digit_iff hc).2 (Or.inl ⟨value, hnumber, rfl⟩)
  | @time text i htime =>
      subst htext
      obtain ⟨c', tail', heq, hc⟩ := htime.timeText.exists_cons
      cases heq
      exact (byFirst_digit_iff hc).2 (Or.inr ⟨i, htime, rfl⟩)
  | @quotedName items value hitems =>
      cases htext
      exact ⟨items, value, rfl, hitems, rfl⟩
  | @quotedString items value hitems =>
      cases htext
      exact ⟨items, value, rfl, hitems, rfl⟩

theorem ne_nil {text : List Char} {t : Token} (h : Lexeme text t) : text ≠ [] := by
  cases h with
  | symbol s => cases s <;> decide
  | keyword hword _ =>
      rintro rfl
      exact hword
  | name hword _ =>
      rintro rfl
      exact hword
  | number hnumber =>
      obtain ⟨c, tail, rfl, -⟩ := hnumber.exists_cons
      simp
  | time htime =>
      obtain ⟨c, tail, rfl, -⟩ := htime.timeText.exists_cons
      simp
  | quotedName => simp
  | quotedString => simp

/-- A text is no number and a time at once: a dash ends the digits of the year. -/
theorem not_time_of_number {text : List Char} {value : Binary64} {c : Calendar.Civil}
    (hnumber : NumberText text value) : ¬ TimeText text c := by
  intro htime
  obtain ⟨clock, fraction, f, rfl, hclock⟩ := htime.exists_fields
  have hle := hnumber.length_le (List.prefix_refl _)
  have hfour := hclock.numberLexeme_length fraction
  have hlong := hclock.length_eq
  rw [List.length_append] at hle
  omega

/-- A text is a lexeme of one token at most. -/
theorem unique {text : List Char} {t t' : Token} (h : Lexeme text t) (h' : Lexeme text t') :
    t = t' := by
  obtain ⟨c, tail, rfl⟩ := List.exists_cons_of_ne_nil h.ne_nil
  have hfirst := h.byFirst
  have hfirst' := h'.byFirst
  by_cases hquote : c = identQuote ∨ c = stringQuote
  · obtain ⟨items, value, rfl, hitems, rfl⟩ := (byFirst_quote_iff hquote).1 hfirst
    obtain ⟨items', value', heq, hitems', rfl⟩ := (byFirst_quote_iff hquote).1 hfirst'
    have hread := Text.Quoted.readBody_of_items hquote hitems []
    rw [heq, Text.Quoted.readBody_of_items hquote hitems' []] at hread
    cases hread
    rfl
  by_cases hword : isWordStart c = true
  · rw [((byFirst_word_iff hword).1 hfirst).2, ((byFirst_word_iff hword).1 hfirst').2]
  by_cases hdigit : c.isDigit = true
  · rcases (byFirst_digit_iff hdigit).1 hfirst with ⟨value, hnumber, rfl⟩ | ⟨i, htime, rfl⟩
    · rcases (byFirst_digit_iff hdigit).1 hfirst' with ⟨value', hnumber', rfl⟩ | ⟨i, htime, rfl⟩
      · have hvalue := hnumber.ofText?
        rw [hnumber'.ofText?] at hvalue
        cases hvalue
        rfl
      · exact absurd htime.timeText (not_time_of_number hnumber)
    · rcases (byFirst_digit_iff hdigit).1 hfirst' with ⟨value', hnumber', rfl⟩ | ⟨i', htime', rfl⟩
      · exact absurd htime.timeText (not_time_of_number hnumber')
      · have hinstant := htime.instantOf?
        rw [htime'.instantOf?] at hinstant
        cases hinstant
        rfl
  · obtain ⟨s, hs, rfl⟩ := (byFirst_symbol_iff hquote hword hdigit).1 hfirst
    obtain ⟨s', hs', rfl⟩ := (byFirst_symbol_iff hquote hword hdigit).1 hfirst'
    have hsymbol := Symbol.ofText?_text s
    rw [hs, ← hs', Symbol.ofText?_text s'] at hsymbol
    cases hsymbol
    rfl

end Lexeme
end FilterLang
