import PureJs.Syntax.ExprParser
import PureJs.Syntax.Module
import PureJs.Text.Blank
import PureJs.Token.Scan

/-! Reading the modules of a source text. -/

namespace PureJs

namespace Cursor

def atModuleHeader (c : Cursor) : Bool :=
  c.kind = .keyword .moduleWord && c.peek.opensLine && c.peek.column = 1

def expectBoundary (c : Cursor) : Except ParseFault Unit :=
  if c.atBoundary then .ok () else c.refuse

def untilBoundary (c : Cursor) : List Token × Cursor :=
  (c.tokens.takeWhile (!c.breaksLayout ·),
    { c with tokens := c.tokens.dropWhile (!c.breaksLayout ·), fresh := false })

end Cursor

namespace Module

def typeText (text : List Char) (tokens : List Token) : String :=
  match tokens.head?, tokens.getLast? with
  | some first, some last =>
    let source := (text.drop first.start).take (last.stop - first.start)
    String.ofList ([' '].intercalate (Text.words source))
  | _, _ => ""

/-- A type, which has to begin before the layout ends what it stands in. -/
def parseType (text : List Char) (c : Cursor) : Except ParseFault (String × Cursor) :=
  if c.atBoundary then c.demand "a type"
  else
    let (tokens, c) := c.untilBoundary
    .ok (typeText text tokens, c)

inductive Item
  | import (entry : Import)
  | declaration (entry : Declaration)
  | signature (entry : Signature)

namespace Item

def import? : Item → Option Import
  | .import entry => some entry
  | _ => none

def declaration? : Item → Option Declaration
  | .declaration entry => some entry
  | _ => none

def signature? : Item → Option Signature
  | .signature entry => some entry
  | _ => none

end Item

def parseImport (c : Cursor) : Except ParseFault (Item × Cursor) := do
  let place := c.peek.place
  let (name, c) ← c.advance.expect .proper "a module name"
  pure (.import ⟨name.value, place, false⟩, c)

def parseForeign (text : List Char) (c : Cursor) : Except ParseFault (Item × Cursor) := do
  let place := c.peek.place
  let (_, c) ← c.advance.expect (.keyword .importWord) "'import'"
  let (name, c) ← c.expect .identifier "an identifier"
  let (javascript, c) ← c.expect .string "a JavaScript string"
  let (_, c) ← c.expect (.mark .doubleColon) "'::'"
  let (type, c) ← parseType text c
  pure (.declaration (.foreign ⟨place, name.value, javascript.value, type⟩), c)

def parseSignature (text : List Char) (c : Cursor) : Except ParseFault (Item × Cursor) := do
  let (type, after) ← parseType text c.advance.advance
  pure (.signature ⟨c.peek.place, c.peek.value, type⟩, after)

def parseValue (c : Cursor) : Except ParseFault (Item × Cursor) := do
  let place := c.peek.place
  let name := c.peek.value
  let (params, c) := c.advance.identifiers
  let (_, c) ← c.expect (.mark .assign) "'='"
  let (body, c) ← Expr.parse (Expr.readingDepth c) c
  pure (.declaration (.value ⟨place, name, params, body⟩), c)

def parseItem (text : List Char) (c : Cursor) : Except ParseFault (Item × Cursor) :=
  match c.kind with
  | .keyword .importWord => parseImport c
  | .keyword .foreignWord => parseForeign text c
  | .identifier =>
    if c.secondKind = .mark .doubleColon then parseSignature text c else parseValue c
  | _ => c.demand "a declaration"

/-- The parts of a module up to the next module or the end of the input. Each has to start in the
first column. -/
def parseItems (text : List Char) : Nat → Cursor → Except ParseFault (List Item × Cursor)
  | 0, _ => .error .exhausted
  | fuel + 1, c =>
    if c.atEnd || c.atModuleHeader then .ok ([], c)
    else if c.peek.column ≠ 1 then
      .error (.malformed (.indentedDeclaration c.peek.value) c.peek.place)
    else do
      let (item, c) ← parseItem text c
      c.expectBoundary
      let (others, c) ← parseItems text fuel c
      pure (item :: others, c)

def ofItems (name file : String) (place : Position) (items : List Item) : Module where
  name := name
  file := file
  place := place
  imports := items.filterMap Item.import?
  declarations := items.filterMap Item.declaration?
  signatures := items.filterMap Item.signature?

def parseOne (file : String) (text : List Char) (c : Cursor) :
    Except ParseFault (Module × Cursor) := do
  if !c.atModuleHeader then c.demand "'module' in column 1"
  let place := c.peek.place
  let (name, c) ← c.advance.expect .proper "a module name"
  let (_, c) ← c.expect (.keyword .whereWord) "'where'"
  c.expectBoundary
  let (items, c) ← parseItems text (c.tokens.length + 1) c
  pure (ofItems name.value file place items, c)

def parseAll (file : String) (text : List Char) : Nat → Cursor → Except ParseFault (List Module)
  | 0, _ => .error .exhausted
  | fuel + 1, c =>
    if c.atEnd then .ok []
    else do
      let (module, c) ← parseOne file text c
      let others ← parseAll file text fuel c
      pure (module :: others)

def ofText (file : String) (text : List Char) : Except ParseFault (List Module) :=
  match Token.scan text with
  | .error (problem, place) => .error (.malformed problem place)
  | .ok tokens =>
    let c := Cursor.ofTokens tokens
    parseAll file text (c.tokens.length + 1) c

end Module

end PureJs
