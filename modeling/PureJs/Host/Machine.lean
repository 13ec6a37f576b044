import PureJs.Host.FileTree

/-! A machine as a value: its files, its standard input, and what was written to it. -/

namespace PureJs

structure Machine where
  files : FileTree
  current : List String
  input : List UInt8
  out : String
  err : String
  deriving DecidableEq, Repr

namespace Machine

def changeFiles (change : Machine → Except FileFault Unit × FileTree) :
    StateM Machine (Except FileFault Unit) := fun machine =>
  ((change machine).1, { machine with files := (change machine).2 })

def entryAt? (machine : Machine) (path : String) : Option Entry :=
  machine.files.entryAt? machine.current path

instance : Host (StateM Machine) where
  readFile path := do
    let machine ← get
    pure (machine.files.readFile machine.current path)
  writeFile path text :=
    changeFiles fun machine =>
      machine.files.writeFile machine.current path text.toUTF8.toList
  makeDirectory path :=
    changeFiles fun machine => machine.files.makeDirectory machine.current path
  isFile path := do
    let machine ← get
    pure (match machine.entryAt? path with
      | some (.file _) => true
      | _ => false)
  isDirectory path := do
    let machine ← get
    pure (machine.entryAt? path = some .directory)
  currentDirectory := do
    let machine ← get
    pure (Path.ofNames machine.current)
  input := do
    let machine ← get
    pure machine.input
  out text := modify fun machine => { machine with out := machine.out ++ text }
  err text := modify fun machine => { machine with err := machine.err ++ text }

end Machine

end PureJs
