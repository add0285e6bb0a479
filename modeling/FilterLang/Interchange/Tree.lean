import FilterLang.Interchange.Encode
import FilterLang.Interchange.Envelope

/-!
# Trees as JSON texts

`toJson` writes a tree as a compact text, and `ofJson` reads one.  An error has
a position if it was found while the text was read; what is found in the values
afterwards has none.  That only space may follow the tree is looked at last.
-/

namespace FilterLang
namespace Interchange

structure Error where
  cause : Json.Cause Mismatch
  position : Option Json.Position

namespace Error

def ofMismatch (e : Mismatch) : Error :=
  ⟨.unsuitable e, none⟩

def ofFault (source : List Char) (f : Json.Fault Mismatch) : Error :=
  ⟨f.cause, some (f.position source)⟩

def category (e : Error) : Json.Category :=
  e.cause.category

def message (e : Error) : String :=
  let cause := e.cause.message Mismatch.message
  match e.position with
  | none => cause
  | some p => cause ++ " at line " ++ Nat.repr p.line ++ " column " ++ Nat.repr p.column

end Error

variable {Op : Type} [OperatorForm Op]

def Envelope.decode (e : Envelope) : Except Mismatch (Expr Op) :=
  match e.body with
  | .members members => do
      let draft ← decodeMembers e.kind [] members {}
      draft.assemble e.kind
  | .items items => do
      let draft ← decodeItems e.kind e.kind.fields items {}
      draft.assembleItems e.kind items.length

/-- Only space may follow a tree. -/
def checkEnd (rest : List Char) : Except (Json.Fault Mismatch) Unit :=
  match Json.skipSpace rest with
  | [] => .ok ()
  | rest => Json.fail .trailingCharacters rest 1

end Interchange

namespace Expr

open Interchange

variable {Op : Type} [OperatorForm Op]

def toJson (e : Expr Op) : Except Interchange.Error String :=
  match encode e with
  | .ok value => .ok (String.ofList value.text)
  | .error mismatch => .error (.ofMismatch mismatch)

def ofJson (text : String) : Except Interchange.Error (Expr Op) := do
  let source := text.toList
  let (envelope, rest) ← (readEnvelope source).mapError (.ofFault source)
  let tree ← envelope.decode.mapError .ofMismatch
  (checkEnd rest).mapError (.ofFault source)
  return tree

end Expr
end FilterLang
