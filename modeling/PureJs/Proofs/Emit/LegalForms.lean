import PureJs.Compile
import PureJs.Proofs.Js.DecimalLiterals
import PureJs.Proofs.Js.IdentifierNames
import PureJs.Proofs.Program.Parts
import PureJs.Proofs.Syntax.Enclosed
import PureJs.Proofs.Syntax.NodesInOrder
import PureJs.Proofs.Syntax.Printable

/-!
Which names and numbers of a program are legal in the code as they are written there. Whole numbers
always are, since they are written anew; names and numbers with a fraction are copied, with digits
that JavaScript does not know and with zeros in front.
-/

namespace PureJs

namespace Literal

def pointedValue (text : List Char) : ℚ :=
  let whole := text.takeWhile Text.isDigit
  let fraction := (text.dropWhile Text.isDigit).tail
  Text.ofDecimals whole + Text.ofDecimals fraction / 10 ^ fraction.length

/-- The number that a literal stands for, if it does for any. -/
def number? : Literal → Option ℚ
  | integer value => some value
  | number text => some (pointedValue text.toList)
  | string _ | bool _ => none

/-- Numbers with a fraction are written in digits of ASCII, and behind a zero at the front is the
point. -/
def Plain : Literal → Prop
  | number text => (∀ c ∈ text.toList, c.isDigit = true ∨ c = '.') ∧
      (text.toList.head? = some '0' → text.toList[1]? = some '.')
  | integer _ | string _ | bool _ => True

theorem pointed_value {whole fraction : List Char} (each : ∀ c ∈ whole, Text.isDigit c = true) :
    pointedValue (whole ++ '.' :: fraction) =
      Text.ofDecimals whole + Text.ofDecimals fraction / 10 ^ fraction.length := by
  have stops : Piece.Stops Text.isDigit ('.' :: fraction) := by
    rintro c ⟨⟩
    decide
  simp [pointedValue, Piece.takeWhile_stops each stops, Piece.dropWhile_stops each stops]

theorem plain_iff {text : String} {whole fraction : List Char}
    (split : text.toList = whole ++ '.' :: fraction) (some : whole ≠ []) (behind : fraction ≠ [])
    (each : ∀ c ∈ whole ++ fraction, Text.isDigit c = true) :
    (number text).Plain ↔ Js.Figures whole ∧ Js.Figures fraction ∧ Js.Unpadded whole := by
  rw [List.forall_mem_append] at each
  have figures : ∀ {part : List Char}, (∀ c ∈ part, Text.isDigit c = true) →
      ((∀ c ∈ part, c.isDigit = true ∨ c = '.') ↔ ∀ c ∈ part, c.isDigit = true) := by
    intro part digits
    refine forall₂_congr fun c member => or_iff_left ?_
    rintro rfl
    exact absurd (digits _ member) (by decide)
  have chars : (∀ c ∈ text.toList, c.isDigit = true ∨ c = '.') ↔
      Js.Figures whole ∧ Js.Figures fraction := by
    rw [split, List.forall_mem_append, List.forall_mem_cons, figures each.1, figures each.2]
    exact ⟨fun ⟨front, _, back⟩ => ⟨⟨some, front⟩, ⟨behind, back⟩⟩,
      fun ⟨front, back⟩ => ⟨front.each, .inr rfl, back.each⟩⟩
  have zeros : (text.toList.head? = Option.some '0' → text.toList[1]? = Option.some '.') ↔
      Js.Unpadded whole := by
    obtain ⟨c, tail, rfl⟩ := List.exists_cons_of_ne_nil some
    rw [split]
    unfold Js.Unpadded
    cases tail with
    | nil => simp
    | cons d tail =>
      have point : d ≠ '.' := by
        rintro rfl
        exact absurd (each.1 '.' (by simp)) (by decide)
      simp [point]
  rw [Plain, chars, zeros, and_assoc]

/-- A number that can be read stands in the code as a decimal literal just if it is plain, and that
literal denotes the number. -/
theorem legal_iff {value : Literal} (writable : value.Writable) {number : ℚ}
    (known : value.number? = some number) (level : Nat) (q : ℚ) :
    Js.DecimalLiteral ((Emit.literal value).text level).toList q ↔ value.Plain ∧ q = number := by
  cases value with
  | integer value =>
    cases known
    obtain ⟨n, rfl⟩ := Int.eq_ofNat_of_zero_le writable.1
    rw [Int.cast_natCast]
    exact (Js.written_literal_iff n q).trans (iff_of_eq (true_and _)).symm
  | number text =>
    cases known
    obtain ⟨whole, fraction, split, some, behind, each⟩ := writable
    have parts := List.forall_mem_append.mp each
    show Js.DecimalLiteral text.toList q ↔ _
    rw [plain_iff split some behind each, split, pointed_value parts.1,
      Js.pointed_literal_iff some behind parts.1 parts.2]
    simp only [and_assoc]
  | string | bool => cases known

end Literal

namespace Module

theorem ofText_writable {file : String} {text : List Char} {modules : List Module}
    (parsed : ofText file text = .ok modules) : ∀ m ∈ modules, m.EachLiteral Literal.Writable := by
  intro m member d value
  obtain ⟨before, name, params, assign, inner, after, finish, scanned, -, -, -, -, -, laid, -⟩ :=
    declaration_laid_out parsed member value
  apply Expr.laid_each laid
  intro t inside e leaf
  cases leaf with
  | integer kind known =>
    unfold Expr.integerValue at known
    split at known
    · rename_i n read
      cases known
      have short := (Nat.length_toDigits_le_iff (by decide) (by decide)).mpr
        (Text.read_numeral_lt read)
      exact ⟨Int.natCast_nonneg n, short⟩
    · cases known
  | number kind =>
    exact (token_alone scanned (t := t) (by simp [inside]) kind (by simp) (by simp)).pointed
  | string | yes | no | name | qualified => trivial

/-- The names that become names of the code: those that are declared, parameters, those that do
blocks bind, and those that stand without a module. -/
inductive Names (m : Module) : String → Prop
  | declared {d : Declaration} (listed : d ∈ m.declarations) : Names m d.name
  | param {d : ValueDeclaration} {x : String} (listed : .value d ∈ m.declarations)
    (member : x ∈ d.params) : Names m x
  | lambda {d : ValueDeclaration} {path : List Branch} {place : Position} {params : List String}
    {body : Expr} {x : String} (listed : .value d ∈ m.declarations)
    (stands : d.body.at? path = some (.lambda place params body)) (member : x ∈ params) :
    Names m x
  | bound {d : ValueDeclaration} {path : List Branch} {place : Position}
    {statements : List Statement} {s : Statement} {x : String}
    (listed : .value d ∈ m.declarations)
    (stands : d.body.at? path = some (.block place statements)) (member : s ∈ statements)
    (binds : s.name? = some x) : Names m x
  | used {d : ValueDeclaration} {path : List Branch} {place : Position} {x : String}
    {resolved : Option String} (listed : .value d ∈ m.declarations)
    (stands : d.body.at? path = some (.var place x none resolved)) : Names m x

theorem Names.lexical {m : Module} (formed : m.Formed) {x : String} (name : m.Names x) :
    Lexical x := by
  have body : ∀ {d : ValueDeclaration} {path part}, .value d ∈ m.declarations →
      d.body.at? path = some part → part.Formed := by
    intro d path part listed stands
    exact Expr.at_of_parts Expr.part_formed (formed _ listed).body stands
  cases name with
  | @declared d listed =>
    cases d with
    | value d => exact (formed _ listed).name
    | foreign d => exact formed _ listed
  | param listed member => exact (formed _ listed).params x member
  | lambda listed stands member => exact (body listed stands).2.1 x member
  | bound listed stands member binds =>
    have each := Expr.statements_formed_each (body listed stands).1
    exact (Expr.statement_formed (each _ member)).2 x binds
  | used listed stands => exact body listed stands

/-- The name of a value becomes an identifier of strict code just if it is made of primes and of
characters that identifiers can have. A number becomes a decimal literal just if it is plain, and
that literal denotes the number and no other. -/
theorem names_and_numbers_legal_iff {units : List SourceUnit} {modules : List Module}
    (parsed : parseUnits units = .ok modules) {m : Module} (member : m ∈ modules) :
    (∀ x, m.Names x → (Js.IsIdentifier (Js.identifier x) ↔
      ∀ c ∈ x.toList, c = '\'' ∨ Text.isIdContinue c = true)) ∧
    ∀ {d : ValueDeclaration}, .value d ∈ m.declarations → ∀ {path place value number},
      d.body.at? path = some (.literal place value) → value.number? = some number →
        ∀ setting level q,
          Js.DecimalLiteral ((Emit.expr setting (.literal place value)).text level).toList q ↔
            value.Plain ∧ q = number := by
  constructor
  · intro x name
    exact Js.identifier_legal_iff (name.lexical (parseUnits_formed parsed m member))
  · intro d listed path place value number stands known setting level q
    have each := parseUnits_each (fun _ _ _ => ofText_writable) parsed m member d listed
    have writable : value.Writable := Expr.at_of_parts Expr.part_literals each stands
    exact Literal.legal_iff writable known level q

def literalAt (d : ValueDeclaration) (path : List Branch) (value : Literal) : Bool :=
  match d.body.at? path with
  | some (.literal _ known) => known = value
  | _ => false

theorem literal_at {d : ValueDeclaration} {path : List Branch} {value : Literal}
    (known : literalAt d path value = true) :
    ∃ place, d.body.at? path = some (.literal place value) := by
  unfold literalAt at known
  split at known
  · rename_i place other stands
    rw [of_decide_eq_true known] at stands
    exact ⟨place, stands⟩
  · cases known

def readsValue (units : List SourceUnit) (test : ValueDeclaration → Bool) : Bool :=
  (parseUnits units).toOption.any fun modules => modules.any fun m =>
    m.declarations.any fun d => d.value?.any test

theorem reads_value {units : List SourceUnit} {test : ValueDeclaration → Bool}
    (reads : readsValue units test = true) :
    ∃ modules, parseUnits units = .ok modules ∧ ∃ m ∈ modules, ∃ d,
      .value d ∈ m.declarations ∧ test d = true := by
  obtain ⟨modules, parsed, inside⟩ := any_gives reads
  obtain ⟨m, member, some⟩ := List.any_eq_true.mp inside
  obtain ⟨declaration, listed, passes⟩ := List.any_eq_true.mp some
  cases declaration with
  | value d => exact ⟨modules, parsed, m, member, d, listed, passes⟩
  | foreign f => cases passes

def markedUnits : List SourceUnit :=
  [⟨none, "module A where\nyield été' = [007, 10.50]\n"⟩]

def isMarked (d : ValueDeclaration) : Bool :=
  d.name = "yield" && d.params = ["été'"] && literalAt d [.item 0] (.integer 7) &&
    literalAt d [.item 1] (.number "10.50")

theorem marked_names_and_numbers_legal :
    ∃ modules, parseUnits markedUnits = .ok modules ∧ ∃ m ∈ modules,
      m.Names "yield" ∧ m.Names "été'" ∧
        Js.IsIdentifier (Js.identifier "yield") ∧ Js.IsIdentifier (Js.identifier "été'") ∧
        Js.DecimalLiteral "7".toList 7 ∧ Js.DecimalLiteral "10.50".toList (1050 / 100) := by
  obtain ⟨modules, parsed, m, member, d, listed, marked⟩ :=
    reads_value (show readsValue markedUnits isMarked = true by decide +kernel)
  simp only [isMarked, Bool.and_eq_true, decide_eq_true_eq] at marked
  obtain ⟨⟨⟨named, given⟩, first⟩, second⟩ := marked
  obtain ⟨names, numbers⟩ := names_and_numbers_legal_iff parsed member
  have head : m.Names "yield" := named ▸ .declared listed
  have param : m.Names "été'" := .param listed (by simp [given])
  have letters : ["yield", "été'"].all (·.toList.all fun c =>
      c = '\'' || Text.isIdContinue c) = true := by decide +kernel
  have passes : ∀ x ∈ ["yield", "été'"], ∀ c ∈ x.toList,
      c = '\'' ∨ Text.isIdContinue c = true := by
    intro x member c inside
    simpa using List.all_eq_true.mp (List.all_eq_true.mp letters x member) c inside
  obtain ⟨_, whole⟩ := literal_at first
  have seven := (numbers listed whole rfl ⟨"A", true⟩ 0 7).mpr ⟨trivial, by norm_num⟩
  obtain ⟨_, pointed⟩ := literal_at second
  have digits : "10.50".toList = ['1', '0'] ++ '.' :: ['5', '0'] := by decide
  have value : (1050 / 100 : ℚ) = Literal.pointedValue "10.50".toList := by
    rw [digits, Literal.pointed_value (List.all_eq_true.mp rfl),
      show Text.ofDecimals ['1', '0'] = 10 by decide,
      show Text.ofDecimals ['5', '0'] = 50 by decide]
    norm_num
  have ten := (numbers listed pointed rfl ⟨"A", true⟩ 0 (1050 / 100)).mpr
    ⟨⟨by simp [digits], by decide⟩, value⟩
  exact ⟨modules, parsed, m, member, head, param, (names _ head).mpr (passes _ (by simp)),
    (names _ param).mpr (passes _ (by simp)), seven, ten⟩

def paddedUnits : List SourceUnit := [⟨none, "module A where\nx = 01.5\n"⟩]

theorem padded_number_illegal :
    ∃ modules, parseUnits paddedUnits = .ok modules ∧ ∃ m ∈ modules, ∃ d,
      .value d ∈ m.declarations ∧ ∃ place, d.body.at? [] = some (.literal place (.number "01.5")) ∧
        ∀ setting level q, ¬Js.DecimalLiteral
          ((Emit.expr setting (.literal place (.number "01.5"))).text level).toList q := by
  obtain ⟨modules, parsed, m, member, d, listed, padded⟩ :=
    reads_value (show readsValue paddedUnits (literalAt · [] (.number "01.5")) = true by
      decide +kernel)
  obtain ⟨place, stands⟩ := literal_at padded
  refine ⟨modules, parsed, m, member, d, listed, place, stands, fun setting level q legal => ?_⟩
  have writable : (Literal.number "01.5").Writable :=
    ⟨['0', '1'], ['5'], by decide, by simp, by simp, List.all_eq_true.mp rfl⟩
  have plain := ((Literal.legal_iff writable rfl level q).mp legal).1
  exact absurd (plain.2 (by decide)) (by decide)

end Module

end PureJs
