import PureJs.CommandLine.Word

/-! Reading a command line in two passes: the first one takes the flags out, and the second one
takes the files from what is left. -/

namespace PureJs.CommandLine

structure Progress where
  args : Arguments
  left : List String
  atFirstWords : Bool

/-- The flags that a word of flags stands for, with their values, in order, and the words after it
that are not used up. -/
structure Cluster where
  flags : List (Flag × Option Value)
  unused : List Word

/-- A flag that has no value in its own word: a value is taken from the next word, if the flag takes
one and the word is not a flag. -/
def withNext (flag : Flag) (next : List Word) : Except UsageError Cluster :=
  match flag.arity, next with
  | .none, _ => .ok ⟨[(flag, none)], next⟩
  | _, .plain value :: unused => .ok ⟨[(flag, some (.text value))], unused⟩
  | .one, _ => .error (.missingValue flag)
  | .atMostOne, _ => .ok ⟨[(flag, none)], next⟩

/-- A flag with characters attached to it. They are its value if it takes one. Otherwise, if the
flag is written with one dash, the first of them is a further flag of one letter, to which the
others are attached. -/
def withAttached (flag : Flag) (short : Bool) (next : List Word) :
    List Char → Except UsageError Cluster
  | [] =>
    if flag.arity = .none then .error (.surplusValue flag "")
    else .ok ⟨[(flag, some (.text ""))], next⟩
  | letter :: others =>
    let surplus := UsageError.surplusValue flag (String.ofList (letter :: others))
    if flag.arity ≠ .none then .ok ⟨[(flag, some (.ofAttached (letter :: others)))], next⟩
    else if !short then .error surplus
    else match Flag.ofName? (String.ofList ['-', letter]) with
      | none => .error surplus
      | some inner => do
        let cluster ←
          if others.isEmpty then withNext inner next else withAttached inner true next others
        pure { cluster with flags := (flag, none) :: cluster.flags }

def takeFlag (progress : Progress) (flag : Flag) (short : Bool) (attached : Option String)
    (next : List Word) : Except Exit (Progress × List Word) := do
  let cluster ← (match attached with
    | none => withNext flag next
    | some text => withAttached flag short next text.toList).mapError Exit.usage
  let args ← cluster.flags.foldlM (fun args entry => args.set entry.1 entry.2) progress.args
  pure ({ progress with args := args }, cluster.unused)

/-- Takes words that are not flags. The first such words are files, if files are looked for, and a
separator among them is dropped; in a pass that does not look for files only a separator in front
of them is dropped. All others are left. -/
def takePlain (forFiles : Bool) (words : List Word) (progress : Progress) : Progress :=
  if words.isEmpty then progress
  else if !progress.atFirstWords then
    { progress with left := progress.left ++ words.map Word.text }
  else if forFiles then
    { progress with
      args := { progress.args with files := (words.erase .separator).map Word.text }
      atFirstWords := false }
  else
    let words := if words.head? = some .separator then words.tail else words
    { progress with left := progress.left ++ words.map Word.text, atFirstWords := false }

def takeWords (forFiles : Bool) : Nat → List Word → Progress → Except Exit Progress
  | 0, _, progress => .ok progress
  | fuel + 1, words, progress =>
    let progress := takePlain forFiles (words.takeWhile (!·.isFlag)) progress
    match words.dropWhile (!·.isFlag) with
    | [] => .ok progress
    | .flag _ flag short attached :: next => do
      let (progress, unused) ← takeFlag progress flag short attached next
      takeWords forFiles fuel unused progress
    | word :: next =>
      takeWords forFiles fuel next { progress with left := progress.left ++ [word.text] }

def pass (forFiles : Bool) (args : Arguments) (words : List String) :
    Except Exit (Arguments × List String) := do
  let words ← (Word.classifyAll words).mapError Exit.usage
  let progress ← takeWords forFiles (words.length + 1) words ⟨args, [], true⟩
  pure (progress.args, progress.left)

def read (words : List String) : Except Exit Arguments := do
  let (args, left) ← pass false .empty words
  let (args, left) ← pass true args left
  if left.isEmpty then pure args else throw (.usage (.unrecognized left))

end PureJs.CommandLine
