import FilterLang.Json.Number
import FilterLang.Json.Text

/-!
# Reading JSON values

The grammar of arrays and objects is written once, for any reader of the parts.
Elements are gathered in a list; members are folded into a state, so that a
reader may treat some names in its own way.

Brackets nest at most 127 deep.  A reader of values is given the number of
levels that are left and opens a bracket only if there is one.
-/

namespace FilterLang
namespace Json

variable {μ α σ : Type}

def isSpace (c : Char) : Bool :=
  c == ' ' || c == '\t' || c == '\n' || c == '\r'

def skipSpace (text : List Char) : List Char :=
  text.dropWhile isSpace

theorem skipSpace_cons_lt {text rest : List Char} {c : Char}
    (h : skipSpace text = c :: rest) : rest.length < text.length := by
  have hskip : (skipSpace text).length ≤ text.length := (List.dropWhile_sublist isSpace).length_le
  rw [h] at hskip
  exact hskip

def readLiteral : List Char → List Char → Except (Fault μ) (List Char)
  | [], rest => .ok rest
  | _ :: _, [] => fail .endInValue [] 0
  | e :: expected, c :: rest =>
      if c = e then readLiteral expected rest else fail .expectedLiteral (c :: rest) 1

/-- Reads elements after the first, up to the closing bracket. -/
def moreElements (item : Reader μ α) (text : List Char) :
    Except (Fault μ) (List α × List Char) :=
  match htext : skipSpace text with
  | [] => fail .endInList [] 0
  | c :: rest =>
      if c = ']' then .ok ([], rest)
      else if c = ',' then
        match skipSpace rest with
        | [] => fail .endInValue [] 0
        | ']' :: after => fail .trailingComma (']' :: after) 1
        | _ =>
            match h : item.run rest with
            | .error f => .error f
            | .ok (a, rest') =>
                have : rest'.length < text.length := by
                  have hitem := item.shorter h
                  have hskip := skipSpace_cons_lt htext
                  omega
                (moreElements item rest').map fun (items, rest) => (a :: items, rest)
      else fail .expectedCommaOrBracket (c :: rest) 1
  termination_by text.length

def readElements (item : Reader μ α) (text : List Char) :
    Except (Fault μ) (List α × List Char) :=
  match skipSpace text with
  | [] => fail .endInList [] 0
  | ']' :: rest => .ok ([], rest)
  | _ => do
      let (a, rest) ← item.run text
      let (items, rest) ← moreElements item rest
      return (a :: items, rest)

/-- Reads a name after its opening quote, and then the member as `member` says. -/
def readMember (member : String → Reader μ α) (text : List Char) :
    Except (Fault μ) (α × List Char) := do
  let (name, rest) ← readString text
  (member (String.ofList name)).run rest

theorem readMember_shorter {member : String → Reader μ α} {text rest : List Char} {a : α}
    (h : readMember member text = .ok (a, rest)) : rest.length < text.length := by
  unfold readMember at h
  cases hname : readString (μ := μ) text with
  | error f =>
      rw [hname] at h
      cases h
  | ok pair =>
      have hstring := readString_shorter hname
      rw [hname] at h
      have hmember := (member (String.ofList pair.1)).shorter h
      omega

/-- Reads members after the first, up to the closing brace. -/
def moreMembers (member : σ → String → Reader μ σ) (state : σ) (text : List Char) :
    Except (Fault μ) (σ × List Char) :=
  match htext : skipSpace text with
  | [] => fail .endInObject [] 0
  | c :: rest =>
      if c = '}' then .ok (state, rest)
      else if c = ',' then
        match hname : skipSpace rest with
        | [] => fail .endInValue [] 0
        | d :: after =>
            if d = '"' then
              match h : readMember (member state) after with
              | .error f => .error f
              | .ok (state', rest') =>
                  have : rest'.length < text.length := by
                    have hmember := readMember_shorter h
                    have hskip := skipSpace_cons_lt htext
                    have hskip' := skipSpace_cons_lt hname
                    omega
                  moreMembers member state' rest'
            else if d = '}' then fail .trailingComma (d :: after) 1
            else fail .keyNotString (d :: after) 1
      else fail .expectedCommaOrBrace (c :: rest) 1
  termination_by text.length

def readMembers (member : σ → String → Reader μ σ) (state : σ) (text : List Char) :
    Except (Fault μ) (σ × List Char) :=
  match skipSpace text with
  | [] => fail .endInObject [] 0
  | '}' :: rest => .ok (state, rest)
  | '"' :: rest => do
      let (state, rest) ← readMember (member state) rest
      moreMembers member state rest
  | other => fail .keyNotString other 1

theorem readLiteral_length_le {expected text rest : List Char}
    (h : readLiteral (μ := μ) expected text = .ok rest) : rest.length ≤ text.length := by
  induction expected generalizing text with
  | nil => cases h; exact Nat.le_refl _
  | cons e expected ih =>
      cases text with
      | nil => cases h
      | cons c text =>
          unfold readLiteral at h
          split at h
          next => exact Nat.le_succ_of_le (ih h)
          next => cases h

theorem moreElements_length_le {item : Reader μ α} {text rest : List Char} {items : List α}
    (h : moreElements item text = .ok (items, rest)) : rest.length ≤ text.length := by
  fun_induction moreElements item text generalizing items with
  | case1 => cases h
  | case2 text rest htext =>
      cases h
      exact Nat.le_of_lt (skipSpace_cons_lt htext)
  | case3 => cases h
  | case4 => cases h
  | case5 => cases h
  | case6 text rest a rest' _ _ _ _ _ hshorter ih =>
      obtain ⟨⟨items', rest''⟩, hmore, heq⟩ := map_eq_ok h
      cases heq
      have := ih hmore
      omega
  | case7 => cases h

theorem readElements_length_le {item : Reader μ α} {text rest : List Char} {items : List α}
    (h : readElements item text = .ok (items, rest)) : rest.length ≤ text.length := by
  unfold readElements at h
  split at h
  next => cases h
  next htext =>
    cases h
    exact Nat.le_of_lt (skipSpace_cons_lt htext)
  next =>
    cases hitem : item.run text with
    | error f =>
        rw [hitem] at h
        cases h
    | ok pair =>
        have hshorter := item.shorter hitem
        rw [hitem] at h
        change (moreElements item pair.2 >>= _) = _ at h
        cases hmore : moreElements item pair.2 with
        | error f =>
            rw [hmore] at h
            cases h
        | ok more =>
            have hle := moreElements_length_le hmore
            rw [hmore] at h
            cases h
            omega

theorem moreMembers_length_le {member : σ → String → Reader μ σ} {state state' : σ}
    {text rest : List Char} (h : moreMembers member state text = .ok (state', rest)) :
    rest.length ≤ text.length := by
  fun_induction moreMembers member state text with
  | case1 => cases h
  | case2 state text rest htext =>
      cases h
      exact Nat.le_of_lt (skipSpace_cons_lt htext)
  | case3 => cases h
  | case4 => cases h
  | case5 state text rest after read rest' _ _ _ _ hshorter ih =>
      have hle := ih h
      omega
  | case6 => cases h
  | case7 => cases h
  | case8 => cases h

theorem readMembers_length_le {member : σ → String → Reader μ σ} {state state' : σ}
    {text rest : List Char} (h : readMembers member state text = .ok (state', rest)) :
    rest.length ≤ text.length := by
  unfold readMembers at h
  split at h
  next => cases h
  next htext =>
    cases h
    exact Nat.le_of_lt (skipSpace_cons_lt htext)
  next after htext =>
    have hskip := skipSpace_cons_lt htext
    cases hmember : readMember (member state) after with
    | error f =>
        rw [hmember] at h
        cases h
    | ok pair =>
        have hshorter := readMember_shorter hmember
        rw [hmember] at h
        have hle := moreMembers_length_le (show moreMembers member pair.1 pair.2 = _ from h)
        omega
  next => cases h

/-- The value of a member, after its colon. -/
def Reader.afterColon (value : Reader μ α) : Reader μ α where
  run text :=
    match skipSpace text with
    | [] => fail .endInObject [] 0
    | ':' :: rest => value.run rest
    | other => fail .expectedColon other 1
  shorter {text rest a} h := by
    split at h
    next => cases h
    next htext =>
      have hskip := skipSpace_cons_lt htext
      have hvalue := value.shorter h
      omega
    next => cases h

def Reader.map {β : Type} (f : α → β) (reader : Reader μ α) : Reader μ β where
  run text := (reader.run text).map fun (a, rest) => (f a, rest)
  shorter {text rest b} h := by
    obtain ⟨⟨a, rest'⟩, hrun, heq⟩ := map_eq_ok h
    cases heq
    exact reader.shorter hrun

/-- Gathers a member; the latest stands first. -/
def gatherMember (value : Reader μ Value) (members : List (String × Value)) (name : String) :
    Reader μ (List (String × Value)) :=
  value.afterColon.map fun v => (name, v) :: members

/-- Reads a value; `inner?` reads what stands inside brackets, if any may be opened. -/
def runValue (inner? : Option (Reader μ Value)) (text : List Char) :
    Except (Fault μ) (Value × List Char) :=
  match skipSpace text with
  | [] => fail .endInValue [] 0
  | c :: rest =>
      if c = 'n' then (readLiteral ['u', 'l', 'l'] rest).map fun rest => (.null, rest)
      else if c = 't' then
        (readLiteral ['r', 'u', 'e'] rest).map fun rest => (.bool true, rest)
      else if c = 'f' then
        (readLiteral ['a', 'l', 's', 'e'] rest).map fun rest => (.bool false, rest)
      else if c = '-' then (readNumber true rest).map fun (n, rest) => (.number n, rest)
      else if c.isDigit then
        (readNumber false (c :: rest)).map fun (n, rest) => (.number n, rest)
      else if c = '"' then
        (readString rest).map fun (s, rest) => (.string (String.ofList s), rest)
      else if c = '[' then
        match inner? with
        | none => fail .tooDeep (c :: rest) 1
        | some inner => (readElements inner rest).map fun (items, rest) => (.array items, rest)
      else if c = '{' then
        match inner? with
        | none => fail .tooDeep (c :: rest) 1
        | some inner =>
            (readMembers (gatherMember inner) [] rest).map fun (members, rest) =>
              (.object members.reverse, rest)
      else fail .expectedValue (c :: rest) 1

theorem runValue_shorter {inner? : Option (Reader μ Value)} {text rest : List Char} {v : Value}
    (h : runValue inner? text = .ok (v, rest)) : rest.length < text.length := by
  unfold runValue at h
  split at h
  next => cases h
  next c tail htext =>
    have hskip := skipSpace_cons_lt htext
    have hliteral : ∀ (expected : List Char) (literal : Value),
        ((readLiteral expected tail : Except (Fault μ) (List Char)).map
            fun rest => (literal, rest)) = .ok (v, rest) → rest.length < text.length := by
      intro expected literal h
      obtain ⟨rest', hread, heq⟩ := map_eq_ok h
      cases heq
      have hle := readLiteral_length_le hread
      omega
    split at h
    next => exact hliteral _ _ h
    split at h
    next => exact hliteral _ _ h
    split at h
    next => exact hliteral _ _ h
    split at h
    next =>
      obtain ⟨⟨n, rest'⟩, hnumber, heq⟩ := map_eq_ok h
      cases heq
      have hlt := readNumber_shorter hnumber
      omega
    split at h
    next =>
      obtain ⟨⟨n, rest'⟩, hnumber, heq⟩ := map_eq_ok h
      cases heq
      have hlt := readNumber_shorter hnumber
      rw [List.length_cons] at hlt
      omega
    split at h
    next =>
      obtain ⟨⟨s, rest'⟩, hstring, heq⟩ := map_eq_ok h
      cases heq
      have hlt := readString_shorter hstring
      omega
    split at h
    next =>
      cases inner? with
      | none => cases h
      | some inner =>
          obtain ⟨⟨items, rest'⟩, helements, heq⟩ := map_eq_ok h
          cases heq
          have hle := readElements_length_le helements
          omega
    split at h
    next =>
      cases inner? with
      | none => cases h
      | some inner =>
          obtain ⟨⟨members, rest'⟩, hmembers, heq⟩ := map_eq_ok h
          cases heq
          have hle := readMembers_length_le hmembers
          omega
    next => cases h

/-- The reader of values that may open brackets to `levels` more levels. -/
def valueReader : (levels : Nat) → Reader μ Value
  | 0 => ⟨runValue none, runValue_shorter⟩
  | levels + 1 => ⟨runValue (some (valueReader levels)), runValue_shorter⟩

def maxDepth : Nat := 127

/-- Reads a whole text with one reader; only space may follow. -/
def readWhole (reader : Reader μ α) (text : List Char) : Except (Fault μ) α := do
  let (a, rest) ← reader.run text
  match skipSpace rest with
  | [] => return a
  | rest => fail .trailingCharacters rest 1

end Json
end FilterLang
