import FilterLang.Interchange.Decode
import FilterLang.Json.Reader

/-!
# The outermost node of a text

The kind of the outermost node is known as soon as it is read, so a fault in it
is found at once and has a position.  All else is first read as values and
judged when the node has been read to its end.

Unlike inner nodes, the outermost one names its kind by a string only.
-/

namespace FilterLang
namespace Interchange

open Json (Reader Fault fail skipSpace)

/-- What a node holds besides its kind. -/
inductive Body where
  | members (members : List (String × Json.Value))
  | items (items : List Json.Value)

structure Envelope where
  kind : Kind
  body : Body

/-- What has been read of an outermost object; the latest member stands first. -/
structure Opened where
  kind : Option Kind := none
  members : List (String × Json.Value) := []

def runKind (text : List Char) : Except (Fault Mismatch) (Kind × List Char) :=
  match skipSpace text with
  | '[' :: rest => fail (.unsuitable (.wrongType (.array []) .kind)) ('[' :: rest) 0
  | '{' :: rest => fail (.unsuitable (.wrongType (.object []) .kind)) ('{' :: rest) 0
  | _ =>
      match Json.runValue none text with
      | .error f => .error f
      | .ok (.string name, rest) =>
          match Kind.ofName name with
          | .ok k => .ok (k, rest)
          | .error e => fail (.unsuitable e) rest 0
      | .ok (other, rest) => fail (.unsuitable (.wrongType other .kind)) rest 0

theorem runKind_shorter {text rest : List Char} {k : Kind}
    (h : runKind text = .ok (k, rest)) : rest.length < text.length := by
  unfold runKind at h
  split at h
  next => cases h
  next => cases h
  next =>
    split at h
    next => cases h
    next hvalue =>
      split at h
      next =>
        cases h
        exact Json.runValue_shorter hvalue
      next => cases h
    next => cases h

def kindReader : Reader Mismatch Kind :=
  ⟨runKind, runKind_shorter⟩

/-- The fault of a second name of the kind.  Space after the name has been
passed over, and a brace if it closes the object there. -/
def repeatedKind {α : Type} (text : List Char) : Except (Fault Mismatch) (α × List Char) :=
  match skipSpace text with
  | '}' :: rest => fail (.unsuitable (.repeated tagName)) rest 0
  | rest => fail (.unsuitable (.repeated tagName)) rest 0

theorem repeatedKind_ne_ok {α : Type} {text : List Char} {r : α × List Char} :
    repeatedKind text ≠ .ok r := by
  unfold repeatedKind
  split <;> exact fun h => nomatch h

def innerReader : Reader Mismatch Json.Value :=
  Json.valueReader (Json.maxDepth - 1)

/-- Reads one member of the outermost object after its name. -/
def openedMember (opened : Opened) (name : String) : Reader Mismatch Opened :=
  if name = tagName then
    match opened.kind with
    | some _ => ⟨repeatedKind, fun h => absurd h repeatedKind_ne_ok⟩
    | none => kindReader.afterColon.map fun k => { opened with kind := some k }
  else
    innerReader.afterColon.map fun value =>
      { opened with members := (name, value) :: opened.members }

def readEnvelope (text : List Char) : Except (Fault Mismatch) (Envelope × List Char) :=
  match skipSpace text with
  | '{' :: rest => do
      let (opened, rest) ← Json.readMembers openedMember {} rest
      match opened.kind with
      | some k => return (⟨k, .members opened.members.reverse⟩, rest)
      | none => fail (.unsuitable (.missing tagName)) rest 0
  | '[' :: rest =>
      match skipSpace rest with
      | [] => fail .endInList [] 0
      | ']' :: rest => fail (.unsuitable (.missing tagName)) rest 0
      | _ => do
          let (k, rest) ← runKind rest
          let (items, rest) ← Json.moreElements innerReader rest
          return (⟨k, .items items⟩, rest)
  | _ => do
      let (value, rest) ← Json.runValue none text
      fail (.unsuitable (.wrongType value .tree)) rest 0

end Interchange
end FilterLang
