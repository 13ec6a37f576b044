import PureJs.Syntax.Module

/-! Interface descriptions of modules: their written imports, and the types of what they declare. -/

namespace PureJs.Module

def unknownType : String := "_"

def externsLines (m : Module) : List String :=
  ["module " ++ m.name ++ " where"] ++
    (m.imports.filter (!·.implicit)).map (fun entry => "import " ++ entry.module) ++
    m.declaredNames.map fun name => name ++ " :: " ++ (m.typeOf? name).getD unknownType

def externs (m : Module) : String := String.join (m.externsLines.map (· ++ "\n"))

def externsOf (modules : List Module) : String := "\n".intercalate (modules.map externs)

end PureJs.Module
