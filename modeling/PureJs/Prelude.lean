import PureJs.Compile

/-! The module that programs import unless they are told not to. -/

namespace PureJs.Prelude

def sourceLines : List String := [
  "module Prelude where",
  "",
  "id :: forall a. a -> a",
  "id x = x",
  "",
  "const :: forall a b. a -> b -> a",
  "const a b = a",
  "",
  "flip :: forall a b c. (a -> b -> c) -> b -> a -> c",
  "flip f b a = f a b",
  "",
  "compose :: forall a b c. (b -> c) -> (a -> b) -> a -> c",
  "compose f g x = f (g x)",
  "",
  "apply :: forall a b. (a -> b) -> a -> b",
  "apply f x = f x",
  "",
  "not :: Boolean -> Boolean",
  "not b = if b then false else true",
  "",
  "negate :: Number -> Number",
  "negate n = 0 - n",
  "",
  "foreign import unit \"var unit = \x7b\x7d;\" :: Unit",
  "",
  "foreign import show \"function show(a) \x7b\\n    return String(a);\\n\x7d\"" ++
    " :: forall a. a -> String",
  "",
  "foreign import pureE \"function pureE(a) \x7b\\n    return function () \x7b\\n" ++
    "        return a;\\n    \x7d;\\n\x7d\" :: forall e a. a -> Eff e a",
  "",
  "foreign import bindE \"function bindE(a) \x7b\\n    return function (f) \x7b\\n" ++
    "        return function () \x7b\\n            return f(a())();\\n        \x7d;\\n" ++
    "    \x7d;\\n\x7d\" :: forall e a b. Eff e a -> (a -> Eff e b) -> Eff e b",
  "",
  "foreign import runPure \"function runPure(f) \x7b\\n    return f();\\n\x7d\"" ++
    " :: forall a. Pure a -> a",
  "",
  "foreign import trace \"function trace(s) \x7b\\n    return function () \x7b\\n" ++
    "        console.log(s);\\n        return \x7b\x7d;\\n    \x7d;\\n\x7d\"" ++
    " :: forall r. String -> Eff (trace :: Trace | r) Unit"]

def source : String := String.join (sourceLines.map (· ++ "\n"))

def unit : SourceUnit := ⟨none, source⟩

end PureJs.Prelude
