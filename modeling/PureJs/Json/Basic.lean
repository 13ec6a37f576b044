/-! JSON values. A number is kept as it is written, so no precision is lost. -/

namespace PureJs

inductive Json
  | null
  | bool (value : Bool)
  | number (text : String)
  | string (value : String)
  | array (items : List Json)
  | object (members : List (String × Json))
  deriving Inhabited

namespace Json

def ofInt (n : Int) : Json := .number (toString n)

def insertMember (key : String) (value : Json) : List (String × Json) → List (String × Json)
  | [] => [(key, value)]
  | member :: rest =>
    if member.1 = key then (key, value) :: rest else member :: insertMember key value rest

def get? : Json → String → Option Json
  | .object members, key => members.lookup key
  | _, _ => none

end Json

end PureJs
