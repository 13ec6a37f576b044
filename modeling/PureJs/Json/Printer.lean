import PureJs.Json.Basic
import PureJs.Text.Hex

/-! Writing JSON in printable ASCII, on one line or laid out over lines. -/

namespace PureJs.Json

def escapeUnit (unit : Nat) : String := "\\u" ++ Text.hex 4 unit

/-- How a character stands inside a string: in printable ASCII, a character past the basic plane as
a pair of surrogates. -/
def escapeChar (c : Char) : String :=
  if c = '"' then "\\\""
  else if c = '\\' then "\\\\"
  else if c = '\n' then "\\n"
  else if c = '\r' then "\\r"
  else if c = '\t' then "\\t"
  else if c = '\x0c' then "\\f"
  else if c = '\x08' then "\\b"
  else if 32 ≤ c.toNat ∧ c.toNat < 127 then c.toString
  else if c.toNat < 0x10000 then escapeUnit c.toNat
  else
    escapeUnit (0xD800 + (c.toNat - 0x10000) / 0x400) ++
      escapeUnit (0xDC00 + (c.toNat - 0x10000) % 0x400)

def quote (text : String) : String :=
  "\"" ++ String.join (text.toList.map escapeChar) ++ "\""

/-- What stands between the parts of an array or object: nothing but a blank after each comma, or
a new line with one more `unit` of indentation for each level. -/
inductive Layout
  | oneLine
  | indented (unit : String)

def Layout.lineBreak (layout : Layout) (depth : Nat) : String :=
  match layout with
  | .oneLine => ""
  | .indented unit => "\n" ++ String.join (List.replicate depth unit)

def Layout.enclose (layout : Layout) (depth : Nat) (opening closing : String)
    (parts : List String) : String :=
  if parts.isEmpty then opening ++ closing
  else
    let between := match layout with
      | .oneLine => ", "
      | .indented _ => "," ++ layout.lineBreak (depth + 1)
    opening ++ layout.lineBreak (depth + 1) ++ between.intercalate parts ++
      layout.lineBreak depth ++ closing

mutual

def renderAt (layout : Layout) (depth : Nat) : Json → String
  | .null => "null"
  | .bool value => if value then "true" else "false"
  | .number text => text
  | .string value => quote value
  | .array items => layout.enclose depth "[" "]" (renderItems layout (depth + 1) items)
  | .object members => layout.enclose depth "\x7b" "\x7d" (renderMembers layout (depth + 1) members)

def renderItems (layout : Layout) (depth : Nat) : List Json → List String
  | [] => []
  | item :: rest => renderAt layout depth item :: renderItems layout depth rest

def renderMembers (layout : Layout) (depth : Nat) : List (String × Json) → List String
  | [] => []
  | (key, value) :: rest =>
    (quote key ++ ": " ++ renderAt layout depth value) :: renderMembers layout depth rest

end

def render (layout : Layout) (value : Json) : String := renderAt layout 0 value

end PureJs.Json
