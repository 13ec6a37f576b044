import Mathlib.Data.List.Infix
import PureJs.Proofs.Program.Sorting
import PureJs.Proofs.Program.WellFormed
import PureJs.Proofs.Syntax.Nodes

/-!
What a program is told whose modules can be put in order. The reports are described by rules,
without the check: for each module in turn there is one for everything in it that is declared or
signed twice or signed without a value, and then, in the order of the source, one for each name that
stands for nothing. The check reports just these, and no report keeps another one back.
-/

namespace PureJs

section Rules

variable (options : Options) (program : List Module) (m : Module)

inductive Module.Wording (name : String) : Option String → String → Prop
  | away {target : String} (far : target ≠ m.name ∧ ¬m.Imports options program target) :
      Module.Wording name (some target) s!"Module '{target}' is not imported"
  | missing {target : String} (near : target = m.name ∨ m.Imports options program target) :
      Module.Wording name (some target) s!"Unknown value '{target}.{name}'"
  | unknown (nowhere : ∀ target, m.Imports options program target →
        ¬Module.Declares program target name) :
      Module.Wording name none s!"Unknown value '{name}'"
  | ambiguous {rivals : List String}
      (order : rivals.Sublist (m.withPrelude options program).importedModules.eraseDups)
      (all : ∀ target, target ∈ rivals ↔
        m.Imports options program target ∧ Module.Declares program target name)
      (several : 2 ≤ rivals.length) :
      Module.Wording name none
        (s!"Ambiguous value '{name}', exported by " ++ ", ".intercalate rivals)

/-- What is reported of a name that is written in `m`, perhaps with a module: nothing if it stands
for something, and else that the module is neither imported nor `m` itself, or that the name is
wrong. -/
inductive Module.NameReport (context locals : List String) (place : Position) (name : String) :
    Option String → List Diagnostic → Prop
  | silent {qualifier found : Option String}
      (stands : m.Denotes options program locals name qualifier found) :
      Module.NameReport context locals place name qualifier []
  | moduleError {target message : String}
      (astray : ∀ found, ¬m.Denotes options program locals name (some target) found)
      (far : target ≠ m.name ∧ ¬m.Imports options program target)
      (wording : m.Wording options program name (some target) message) :
      Module.NameReport context locals place name (some target)
        [{ kind := .moduleError
           message := message
           location := some (place.inFile m.file)
           context := context }]
  | nameError {qualifier : Option String} {message : String}
      (astray : ∀ found, ¬m.Denotes options program locals name qualifier found)
      (near : ∀ target, qualifier = some target →
        target = m.name ∨ m.Imports options program target)
      (wording : m.Wording options program name qualifier message) :
      Module.NameReport context locals place name qualifier
        [{ kind := .nameError
           message := message
           location := some (place.inFile m.file)
           context := context }]

end Rules

namespace Expr

section Reported

variable (tells : List String → Position → String → Option String → List Diagnostic → Prop)

mutual

/-- The reports are those on the names in the expression, in the order of the source. Each name is
judged with the local names that can be used where it stands. -/
inductive Reported : List String → Expr → List Diagnostic → Prop
  | literal {locals place value} : Reported locals (.literal place value) []
  | array {locals place items reports} (inner : ListReported locals items reports) :
      Reported locals (.array place items) reports
  | var {locals place name qualifier resolved reports}
      (told : tells locals place name qualifier reports) :
      Reported locals (.var place name qualifier resolved) reports
  | app {locals place function argument reports reports'}
      (first : Reported locals function reports) (second : Reported locals argument reports') :
      Reported locals (.app place function argument) (reports ++ reports')
  | lambda {locals place params body reports} (inner : Reported (params ++ locals) body reports) :
      Reported locals (.lambda place params body) reports
  | cond {locals place condition yes no reports reports' reports''}
      (first : Reported locals condition reports) (second : Reported locals yes reports')
      (third : Reported locals no reports'') :
      Reported locals (.cond place condition yes no) (reports ++ reports' ++ reports'')
  | binary {locals place op left right reports reports'} (first : Reported locals left reports)
      (second : Reported locals right reports') :
      Reported locals (.binary place op left right) (reports ++ reports')
  | negate {locals place operand reports} (inner : Reported locals operand reports) :
      Reported locals (.negate place operand) reports
  | block {locals place statements reports} (inner : StatementsReported locals statements reports) :
      Reported locals (.block place statements) reports

inductive ListReported : List String → List Expr → List Diagnostic → Prop
  | nil {locals} : ListReported locals [] []
  | cons {locals e rest reports reports'} (first : Reported locals e reports)
      (others : ListReported locals rest reports') :
      ListReported locals (e :: rest) (reports ++ reports')

inductive StatementsReported : List String → List Statement → List Diagnostic → Prop
  | nil {locals} : StatementsReported locals [] []
  | bind {locals place name e rest reports reports'} (first : Reported locals e reports)
      (others : StatementsReported (name :: locals) rest reports') :
      StatementsReported locals (.bind place name e :: rest) (reports ++ reports')
  | define {locals place name e rest reports reports'} (first : Reported locals e reports)
      (others : StatementsReported (name :: locals) rest reports') :
      StatementsReported locals (.define place name e :: rest) (reports ++ reports')
  | run {locals place e rest reports reports'} (first : Reported locals e reports)
      (others : StatementsReported locals rest reports') :
      StatementsReported locals (.run place e :: rest) (reports ++ reports')

end

end Reported

section Told

variable {tells : List String → Position → String → Option String → List Diagnostic → Prop}
  {told : Occurrence → List Diagnostic}

mutual

/-- If each use of a name is told what it is to be told, so is the whole expression. -/
theorem reported_told
    (each : ∀ use, tells use.locals use.place use.name use.qualifier (told use)) (e : Expr)
    (locals : List String) : e.Reported tells locals ((e.occurrences locals).flatMap told) := by
  cases e with
  | literal place value => exact .literal
  | array place items => exact .array (list_reported_told each items locals)
  | var place name qualifier resolved =>
    rw [occurrences, List.flatMap_singleton]
    exact .var (each ⟨place, name, qualifier, resolved, locals⟩)
  | app place function argument =>
    rw [occurrences, List.flatMap_append]
    exact .app (reported_told each function locals) (reported_told each argument locals)
  | lambda place params body => exact .lambda (reported_told each body (params ++ locals))
  | cond place condition yes no =>
    rw [occurrences, List.flatMap_append, List.flatMap_append]
    exact .cond (reported_told each condition locals) (reported_told each yes locals)
      (reported_told each no locals)
  | binary place op left right =>
    rw [occurrences, List.flatMap_append]
    exact .binary (reported_told each left locals) (reported_told each right locals)
  | negate place operand => exact .negate (reported_told each operand locals)
  | block place statements => exact .block (statements_reported_told each statements locals)

theorem list_reported_told
    (each : ∀ use, tells use.locals use.place use.name use.qualifier (told use))
    (items : List Expr) (locals : List String) :
    ListReported tells locals items ((listOccurrences locals items).flatMap told) := by
  cases items with
  | nil => exact .nil
  | cons e rest =>
    rw [listOccurrences, List.flatMap_append]
    exact .cons (reported_told each e locals) (list_reported_told each rest locals)

theorem statements_reported_told
    (each : ∀ use, tells use.locals use.place use.name use.qualifier (told use))
    (statements : List Statement) (locals : List String) :
    StatementsReported tells locals statements
      ((statementOccurrences locals statements).flatMap told) := by
  match statements with
  | [] => exact .nil
  | .bind _ name e :: rest =>
    rw [statementOccurrences, List.flatMap_append]
    exact .bind (reported_told each e locals) (statements_reported_told each rest (name :: locals))
  | .define _ name e :: rest =>
    rw [statementOccurrences, List.flatMap_append]
    exact .define (reported_told each e locals)
      (statements_reported_told each rest (name :: locals))
  | .run _ e :: rest =>
    rw [statementOccurrences, List.flatMap_append]
    exact .run (reported_told each e locals) (statements_reported_told each rest locals)

end

end Told

/-! The names of an expression are among its nodes -/

mutual

theorem occurrences_nodes (e : Expr) (locals : List String) :
    ((e.occurrences locals).map Occurrence.place).Sublist (e.nodes.map Expr.place) := by
  cases e with
  | literal place value => exact List.nil_sublist _
  | array place items => exact list_occurrences_nodes items locals
  | var place name qualifier resolved => exact List.Sublist.refl _
  | app place function argument =>
    rw [occurrences, nodes, List.map_append, List.map_append]
    exact (occurrences_nodes function locals).append (occurrences_nodes argument locals)
  | lambda place params body => exact (occurrences_nodes body (params ++ locals)).cons _
  | cond place condition yes no =>
    simp only [occurrences, nodes, List.cons_append, List.map_cons, List.map_append]
    exact (((occurrences_nodes condition locals).append (occurrences_nodes yes locals)).append
      (occurrences_nodes no locals)).cons _
  | binary place op left right =>
    rw [occurrences, nodes, List.map_append, List.map_append]
    exact (occurrences_nodes left locals).append ((occurrences_nodes right locals).cons _)
  | negate place operand => exact (occurrences_nodes operand locals).cons _
  | block place statements => exact (statement_occurrences_nodes statements locals).cons _

theorem list_occurrences_nodes (items : List Expr) (locals : List String) :
    ((listOccurrences locals items).map Occurrence.place).Sublist
      ((listNodes items).map Expr.place) := by
  cases items with
  | nil => exact List.Sublist.refl _
  | cons e rest =>
    rw [listOccurrences, listNodes, List.map_append, List.map_append]
    exact (occurrences_nodes e locals).append (list_occurrences_nodes rest locals)

theorem statement_occurrences_nodes (statements : List Statement) (locals : List String) :
    ((statementOccurrences locals statements).map Occurrence.place).Sublist
      ((statementNodes statements).map Expr.place) := by
  match statements with
  | [] => exact List.Sublist.refl _
  | .bind _ name e :: rest =>
    rw [statementOccurrences, statementNodes, List.map_append, List.map_append]
    exact (occurrences_nodes e locals).append (statement_occurrences_nodes rest (name :: locals))
  | .run _ e :: rest =>
    rw [statementOccurrences, statementNodes, List.map_append, List.map_append]
    exact (occurrences_nodes e locals).append (statement_occurrences_nodes rest locals)
  | .define place name e :: rest =>
    rw [statementOccurrences, statementNodes, List.map_append, List.map_append]
    refine List.Sublist.append ?_ (statement_occurrences_nodes rest (name :: locals))
    split
    · -- a lambda that is made from parameters is listed by its body alone
      rename_i made
      cases e with
      | lambda _ params body => exact occurrences_nodes body (params ++ locals)
      | _ => cases made
    · exact occurrences_nodes e locals

end

end Expr

namespace Module

/-! What is reported of declarations and signatures -/

def remark (m : Module) (place : Position) (message : String) : Diagnostic where
  kind := .declarationError
  message := message
  location := some (place.inFile m.file)
  context := ["module " ++ m.name]

def declarationReport (m : Module) (front : List Declaration) (d : Declaration) :
    List Diagnostic :=
  (if d.name ∈ front.map Declaration.name then
    [m.remark d.place s!"Value '{d.name}' is declared more than once"] else []) ++
  (if d.value?.any (¬·.params.Nodup) then
    [m.remark d.place s!"Duplicate parameter name in '{d.name}'"] else [])

def signatureReport (m : Module) (front : List Signature) (s : Signature) : List Diagnostic :=
  (if s.name ∈ front.map Signature.name then
    [m.remark s.place s!"Duplicate type declaration for '{s.name}'"] else []) ++
  (if s.name ∉ (m.declarations.filterMap Declaration.value?).map ValueDeclaration.name then
    [m.remark s.place
      s!"The type declaration for '{s.name}' should be followed by its definition"] else [])

def reportsInTurn {α : Type} (report : List α → α → List Diagnostic) (entries : List α) :
    List Diagnostic :=
  (entries.inits.zip entries).flatMap fun entry => report entry.1 entry.2

section Rules

variable (options : Options) (program : List Module) (m : Module)

/-- The reports on the names in a declaration, which stand in it as they do in the source. -/
inductive BodyReported : Declaration → List Diagnostic → Prop
  | value {d : ValueDeclaration} {reports : List Diagnostic}
      (names : d.body.Reported
        (m.NameReport options program ["value declaration " ++ d.name, "module " ++ m.name])
        d.params reports)
      (ordered : (reports.map Diagnostic.location).Sublist
        (d.body.nodes.map fun e => some (e.place.inFile m.file))) :
      BodyReported (.value d) reports
  | foreign {f : ForeignDeclaration} : BodyReported (.foreign f) []

/-- The reports on a module: first those on its declarations and signatures, and then those on the
names in it. -/
def Reported (reports : List Diagnostic) : Prop :=
  ∃ bodies, List.Forall₂ (m.BodyReported options program) m.declarations bodies ∧
    reports = reportsInTurn m.declarationReport m.declarations ++
      reportsInTurn m.signatureReport m.signatures ++ bodies.flatten

end Rules

section Findings

variable {options : Options} {program : List Module} {m : Module}

theorem told_in_turn {α : Type} {key : α → String} {all : List String → List α → List Finding}
    {one : List String → α → List Finding} {report : List α → α → List Diagnostic}
    (nil : ∀ known, all known [] = [])
    (cons : ∀ known entry rest,
      all known (entry :: rest) = one known entry ++ all (key entry :: known) rest)
    (told : ∀ known front entry, (∀ name, name ∈ known ↔ name ∈ front.map key) →
      (one known entry).map Finding.diagnostic = report front entry) (entries : List α) :
    (all [] entries).map Finding.diagnostic = reportsInTurn report entries := by
  have behind : ∀ known front, (∀ name, name ∈ known ↔ name ∈ front.map key) →
      (all known entries).map Finding.diagnostic =
        ((entries.inits.map (front ++ ·)).zip entries).flatMap
          fun entry => report entry.1 entry.2 := by
    induction entries with
    | nil =>
      intro known front _
      rw [nil]
      rfl
    | cons entry rest ih =>
      intro known front same
      have next : ∀ name, name ∈ key entry :: known ↔ name ∈ (front ++ [entry]).map key := by
        intro name
        rw [List.mem_cons, same, List.map_append, List.mem_append, List.map_singleton,
          List.mem_singleton, or_comm]
      have fronts : ((entry :: rest).inits.map (front ++ ·)).zip (entry :: rest) =
          (front, entry) :: (rest.inits.map (front ++ [entry] ++ ·)).zip rest := by
        simp [List.inits, Function.comp_def]
      rw [cons, fronts, List.flatMap_cons, List.map_append, told known front entry same,
        ih _ _ next]
  rw [behind [] [] fun _ => Iff.rfl, reportsInTurn]
  simp only [List.nil_append, List.map_id']

def declarationFaults (m : Module) (known : List String) (d : Declaration) : List Finding :=
  (if d.name ∈ known then [m.finding d.place (.repeatedValue d.name)] else []) ++
    parameterFindings m d

def signatureFaults (m : Module) (known : List String) (s : Signature) : List Finding :=
  (if s.name ∈ known then [m.finding s.place (.repeatedSignature s.name)] else []) ++
    if m.declarations.any (fun d => d.value?.any (·.name = s.name)) then []
    else [m.finding s.place (.signatureWithoutValue s.name)]

theorem declarations_told (m : Module) :
    (declarationFindings m [] m.declarations).map Finding.diagnostic =
      reportsInTurn m.declarationReport m.declarations := by
  have cons : ∀ known d rest, declarationFindings m known (d :: rest) =
      declarationFaults m known d ++ declarationFindings m (d.name :: known) rest :=
    fun _ _ _ => rfl
  refine told_in_turn (fun _ => rfl) cons (fun known front d same => ?_) m.declarations
  rw [declarationFaults, List.map_append, declarationReport]
  congr 1
  · simp only [same]
    split <;> rfl
  · cases d with
    | value v =>
      by_cases distinct : v.params.Nodup
      · simp [parameterFindings, Declaration.value?, distinct]
      · simp [parameterFindings, Declaration.value?, distinct]
        rfl
    | foreign f => rfl

theorem signatures_told (m : Module) :
    (signatureFindings m [] m.signatures).map Finding.diagnostic =
      reportsInTurn m.signatureReport m.signatures := by
  have cons : ∀ known s rest, signatureFindings m known (s :: rest) =
      signatureFaults m known s ++ signatureFindings m (s.name :: known) rest := fun _ _ _ => rfl
  refine told_in_turn (fun _ => rfl) cons (fun known front s same => ?_) m.signatures
  rw [signatureFaults, List.map_append, signatureReport]
  congr 1
  · simp only [same]
    split <;> rfl
  · have defined : m.declarations.any (fun d => d.value?.any (·.name = s.name)) = true ↔
        s.name ∈ (m.declarations.filterMap Declaration.value?).map ValueDeclaration.name := by
      simp only [List.any_eq_true, Option.any_eq_true, decide_eq_true_eq, List.mem_map,
        List.mem_filterMap]
      constructor
      · rintro ⟨d, member, v, is, named⟩
        exact ⟨v, ⟨d, member, is⟩, named⟩
      · rintro ⟨v, ⟨d, member, is⟩, named⟩
        exact ⟨d, member, v, is, named⟩
    simp only [defined, ite_not]
    split <;> rfl

def useReport (options : Options) (program : List Module) (m : Module) (context : List String)
    (use : Occurrence) : List Diagnostic :=
  match lookup (addPrelude options program) (m.withPrelude options program) use with
  | .ok _ => []
  | .error problem => [⟨problem.kind, problem.message, some (use.place.inFile m.file), context⟩]

theorem lookup_fails_qualified {use : Occurrence} {target : String} {problem : Problem}
    (written : use.qualifier = some target)
    (wrong : lookup (addPrelude options program) (m.withPrelude options program) use =
      .error problem) :
    ((target ≠ m.name ∧ ¬m.Imports options program target) ∧ problem = .notImported target) ∨
      (target = m.name ∨ m.Imports options program target) ∧
        problem = .unknownValue (target ++ "." ++ use.name) := by
  unfold lookup at wrong
  rw [written] at wrong
  dsimp only at wrong
  rw [with_prelude_name] at wrong
  split at wrong
  · rename_i far
    cases wrong
    rw [mem_imported_with_prelude] at far
    exact .inl ⟨far, rfl⟩
  · rename_i near
    have near := Decidable.or_iff_not_not_and_not.mpr near
    rw [mem_imported_with_prelude] at near
    split at wrong
    · cases wrong
    · cases wrong
      exact .inr ⟨near, rfl⟩

theorem lookup_fails_plain {use : Occurrence} {problem : Problem} (written : use.qualifier = none)
    (wrong : lookup (addPrelude options program) (m.withPrelude options program) use =
      .error problem) :
    ((∀ target, m.Imports options program target → ¬Declares program target use.name) ∧
        problem = .unknownValue use.name) ∨
      ∃ rivals : List String,
        rivals.Sublist (m.withPrelude options program).importedModules.eraseDups ∧
          (∀ target, target ∈ rivals ↔
            m.Imports options program target ∧ Declares program target use.name) ∧
          2 ≤ rivals.length ∧ problem = .ambiguousValue use.name rivals := by
  have listed : ∀ target,
      target ∈ exporters (addPrelude options program) (m.withPrelude options program) use.name ↔
        m.Imports options program target ∧ Declares program target use.name := by
    intro target
    rw [exporters, List.mem_filter, List.mem_eraseDups, mem_imported_with_prelude,
      declares_add_prelude]
  unfold lookup at wrong
  rw [written] at wrong
  dsimp only at wrong
  split at wrong
  · cases wrong
  split at wrong
  · cases wrong
  split at wrong
  · rename_i none
    cases wrong
    refine .inl ⟨fun target imports declared => ?_, rfl⟩
    have member := (listed target).mpr ⟨imports, declared⟩
    rw [none] at member
    exact List.not_mem_nil member
  · cases wrong
  · rename_i none single
    cases wrong
    refine .inr ⟨exporters _ _ use.name, List.filter_sublist, listed, ?_, rfl⟩
    have some := mt List.length_eq_zero_iff.mp none
    have more : (exporters (addPrelude options program) (m.withPrelude options program)
        use.name).length ≠ 1 := by
      rw [ne_eq, List.length_eq_one_iff]
      rintro ⟨only, same⟩
      exact single only same
    omega

theorem unknown_qualified_message (target name : String) :
    (Problem.unknownValue (target ++ "." ++ name)).message =
      s!"Unknown value '{target}.{name}'" := by
  change "Unknown value '" ++ (target ++ "." ++ name) ++ "'" =
    "Unknown value '" ++ target ++ "." ++ name ++ "'"
  simp only [String.append_assoc]

theorem use_reported (context : List String) (use : Occurrence) :
    m.NameReport options program context use.locals use.place use.name use.qualifier
      (useReport options program m context use) := by
  unfold useReport
  split
  · rename_i found stands
    exact .silent (lookup_iff.mp stands)
  · rename_i problem wrong
    have astray : ∀ found,
        ¬m.Denotes options program use.locals use.name use.qualifier found := by
      intro found stands
      rw [lookup_iff.mpr stands] at wrong
      cases wrong
    cases written : use.qualifier with
    | some target =>
      rw [written] at astray
      obtain ⟨far, rfl⟩ | ⟨near, rfl⟩ := lookup_fails_qualified written wrong
      · exact .moduleError astray far (.away far)
      · have wording : m.Wording options program use.name (some target)
            (Problem.unknownValue (target ++ "." ++ use.name)).message := by
          rw [unknown_qualified_message]
          exact .missing near
        refine .nameError astray ?_ wording
        rintro _ ⟨⟩
        exact near
    | none =>
      rw [written] at astray
      obtain ⟨nowhere, rfl⟩ | ⟨rivals, order, all, several, rfl⟩ := lookup_fails_plain written wrong
      · exact .nameError astray (by rintro _ ⟨⟩) (.unknown nowhere)
      · exact .nameError astray (by rintro _ ⟨⟩) (.ambiguous order all several)

theorem with_prelude_file : (m.withPrelude options program).file = m.file :=
  with_prelude_keeps Module.file fun _ => rfl

theorem name_findings_told (d : ValueDeclaration) :
    (nameFindings (addPrelude options program) (m.withPrelude options program) (.value d)).map
        Finding.diagnostic =
      (d.body.occurrences d.params).flatMap
        (useReport options program m ["value declaration " ++ d.name, "module " ++ m.name]) := by
  rw [nameFindings]
  induction d.body.occurrences d.params with
  | nil => rfl
  | cons use rest ih =>
    rw [List.flatMap_cons, ← ih]
    unfold useReport
    rw [List.filterMap_cons]
    cases found : lookup (addPrelude options program) (m.withPrelude options program) use with
    | ok target => rfl
    | error problem =>
      rw [with_prelude_name, with_prelude_file]
      rfl

theorem declaration_reported (d : Declaration) :
    m.BodyReported options program d
      ((nameFindings (addPrelude options program) (m.withPrelude options program) d).map
        Finding.diagnostic) := by
  cases d with
  | foreign f => exact .foreign
  | value d =>
    rw [name_findings_told]
    refine .value (Expr.reported_told (use_reported _) d.body d.params) ?_
    have places := (d.body.occurrences_nodes d.params).map fun place => some (place.inFile m.file)
    rw [List.map_map, List.map_map] at places
    refine List.Sublist.trans ?_ places
    rw [List.map_flatMap]
    induction d.body.occurrences d.params with
    | nil => exact List.Sublist.refl _
    | cons use rest ih =>
      have front : ((useReport options program m ["value declaration " ++ d.name,
          "module " ++ m.name] use).map Diagnostic.location).Sublist
          [some (use.place.inFile m.file)] := by
        unfold useReport
        split
        · exact List.nil_sublist _
        · exact List.Sublist.refl _
      exact front.append ih

theorem module_reported :
    m.Reported options program
      ((findings (addPrelude options program) (m.withPrelude options program)).map
        Finding.diagnostic) := by
  refine ⟨m.declarations.map fun d =>
    (nameFindings (addPrelude options program) (m.withPrelude options program) d).map
      Finding.diagnostic, ?_, ?_⟩
  · exact List.forall₂_map_right_iff.mpr (List.forall₂_same.mpr fun d _ => declaration_reported d)
  · have declared := (declarations_told (m.withPrelude options program)).trans
      (with_prelude_keeps (fun m => reportsInTurn m.declarationReport m.declarations) fun _ => rfl)
    have signed := (signatures_told (m.withPrelude options program)).trans
      (with_prelude_keeps (fun m => reportsInTurn m.signatureReport m.signatures) fun _ => rfl)
    rw [findings, List.map_append, List.map_append, declared, signed, with_prelude_declarations,
      List.map_flatMap, List.flatMap_def]

theorem sorted_with_prelude (distinct : (program.map Module.name).Nodup) {sorted : List Module}
    (order : sort (addPrelude options program) = .ok sorted) :
    ∃ sources : List Module, sources.Perm program ∧
      sorted = sources.map (withPrelude options program) := by
  have names : ((addPrelude options program).map Module.name).Nodup := by
    rw [add_prelude_names]
    exact distinct
  have perm := (sort_sorted order).perm names
  rw [add_prelude_eq] at perm
  have given : List.Forall₂ (fun m given => withPrelude options program m = given) program
      (program.map (withPrelude options program)) :=
    List.forall₂_map_right_iff.mpr (List.forall₂_same.mpr fun _ _ => rfl)
  have both : Relation.Comp (List.Forall₂ _) List.Perm program sorted := ⟨_, given, perm.symm⟩
  rw [List.forall₂_comp_perm_eq_perm_comp_forall₂] at both
  obtain ⟨sources, same, all⟩ := both
  refine ⟨sources, same.symm, ?_⟩
  rw [← List.forall₂_eq_eq_eq]
  exact (List.forall₂_map_right_iff.mpr (all.flip.imp fun _ _ is => is.symm))

theorem check_sorted (distinct : (program.map Module.name).Nodup)
    (known : unknownImports (addPrelude options program) = []) {sorted : List Module}
    (order : sort (addPrelude options program) = .ok sorted) :
    check options program =
      if sorted.flatMap (findings (addPrelude options program)) ≠ [] then
        .error ⟨⟨sorted.flatMap (findings (addPrelude options program)), options.verboseErrors⟩,
          (addPrelude options program).map (resolve (addPrelude options program))⟩
      else .ok (sorted.map (resolve (addPrelude options program))) := by
  unfold check
  dsimp only
  rw [repeated_modules_nil_iff.mpr distinct, known, order]
  simp only [ne_eq, not_true_eq_false, if_false]

/-- A program whose modules can be put in order is told all that is wrong inside its modules, module
by module in that order, and is accepted if that is nothing. -/
theorem check_reports_all (distinct : (program.map Module.name).Nodup)
    (known : ∀ m ∈ program, ∀ target, m.Imports options program target →
      target ∈ program.map Module.name)
    (acyclic : ∀ name, ¬Relation.TransGen
      (fun a b => ∃ m ∈ program, m.name = a ∧ m.Imports options program b) name name) :
    ∃ sources reports, sources.Perm program ∧
      (∀ before m after, sources = before ++ m :: after →
        ∀ other ∈ program, m.Imports options program other.name → other ∈ before) ∧
      (∃ sorted, sort (addPrelude options program) = .ok sorted ∧
        sorted.map Module.name = sources.map Module.name) ∧
      List.Forall₂ (Module.Reported options program) sources reports ∧
      (reports.flatten = [] → ∃ ordered, check options program = .ok ordered) ∧
      (reports.flatten ≠ [] → ∃ refusal, check options program = .error refusal ∧
        refusal.rejection.verbose = options.verboseErrors ∧
        refusal.rejection.diagnostics = reports.flatten) := by
  have names : ((addPrelude options program).map Module.name).Nodup := by
    rw [add_prelude_names]
    exact distinct
  rw [← imports_within_add_prelude known] at acyclic
  obtain ⟨sorted, order⟩ := (sort_ok_iff names).mpr acyclic
  obtain ⟨sources, perm, same⟩ := sorted_with_prelude distinct order
  have checked := check_sorted distinct (unknown_imports_add_prelude_iff.mpr known) order
  have told : (sources.map fun m =>
        (findings (addPrelude options program) (m.withPrelude options program)).map
          Finding.diagnostic).flatten =
      (sorted.flatMap (findings (addPrelude options program))).map Finding.diagnostic := by
    rw [same, List.flatMap_map, List.map_flatMap, List.flatMap_def]
  refine ⟨sources, _, perm, ?_, ⟨sorted, order, ?_⟩,
    List.forall₂_map_right_iff.mpr (List.forall₂_same.mpr fun m _ => module_reported), ?_, ?_⟩
  · intro before m after split other member imports
    have parts : sorted = before.map (withPrelude options program) ++
        m.withPrelude options program :: after.map (withPrelude options program) := by
      rw [same, split, List.map_append, List.map_cons]
    have listed : other.withPrelude options program ∈ sorted := by
      rw [same]
      exact List.mem_map_of_mem (perm.mem_iff.mpr member)
    have imported : (other.withPrelude options program).name ∈
        (m.withPrelude options program).importedModules := by
      rwa [with_prelude_name, mem_imported_with_prelude]
    obtain ⟨found, front, alike⟩ := List.mem_map.mp
      ((sort_sorted order).in_order names _ _ _ parts _ listed imported)
    have inside : found ∈ program := perm.mem_iff.mp (split ▸ List.mem_append_left _ front)
    have named := congrArg Module.name alike
    rw [with_prelude_name, with_prelude_name] at named
    rwa [List.inj_on_of_nodup_map distinct inside member named] at front
  · rw [same, List.map_map]
    exact List.map_congr_left fun _ _ => with_prelude_name
  · intro none
    rw [told, List.map_eq_nil_iff] at none
    exact ⟨_, checked.trans (if_neg (not_not.mpr none))⟩
  · intro some
    rw [told] at some
    refine ⟨_, checked.trans (if_pos (mt List.map_eq_nil_iff.mpr some)), rfl, ?_⟩
    rw [told]
    rfl

/-- A module that declares a value twice, signs it twice, signs another one without declaring it and
repeats a parameter, in front of the modules it imports. Its names stand for nothing: one is of a
module that it does not import, one is not in the module that it names, one is in two modules and
one in none. -/
def mistaken : List Module :=
  let place (line column : Nat) : Position := ⟨line, column⟩
  let use (line column : Nat) (name : String) (qualifier : Option String) : Expr :=
    .var (place line column) name qualifier none
  let one (name : String) : Declaration :=
    .value ⟨place 2 1, name, [], .literal (place 2 5) (.integer 1)⟩
  [⟨"App", "app", place 1 1, [⟨"Left", place 2 1, false⟩, ⟨"Right", place 3 1, false⟩],
      [.value ⟨place 6 1, "f", ["a", "a"],
          .app (place 6 9) (use 6 9 "a" none) (use 6 11 "y" (some "Far"))⟩,
        .value ⟨place 7 1, "f", [], .block (place 7 5)
          [.bind (place 8 3) "x" (use 8 8 "x" none),
            .run (place 9 3) (.array (place 9 3)
              [use 9 4 "x" none, use 9 7 "z" (some "Left"), use 9 15 "y" none])]⟩],
      [⟨place 4 1, "f", "Int"⟩, ⟨place 5 1, "f", "Int"⟩, ⟨place 10 1, "w", "Int"⟩]⟩,
    ⟨"Left", "left", place 1 1, [], [one "y"], []⟩,
    ⟨"Right", "right", place 1 1, [], [one "y"], []⟩]

theorem mistaken_reported :
    ∃ refusal reports, check Options.default mistaken = .error refusal ∧
      refusal.rejection.diagnostics = reports.flatten ∧
      refusal.rejection.diagnostics.map Diagnostic.message =
        ["Duplicate parameter name in 'f'", "Value 'f' is declared more than once",
          "Duplicate type declaration for 'f'",
          "The type declaration for 'w' should be followed by its definition",
          "Module 'Far' is not imported", "Unknown value 'x'", "Unknown value 'Left.z'",
          "Ambiguous value 'y', exported by Left, Right"] ∧
      ∃ sources : List Module, sources.Perm mistaken ∧
        sources.map Module.name = ["Left", "Right", "App"] ∧
        List.Forall₂ (Module.Reported Options.default mistaken) sources reports := by
  have distinct : (mistaken.map Module.name).Nodup := by decide
  have known := unknown_imports_add_prelude_iff.mp
    (show unknownImports (addPrelude Options.default mistaken) = [] by rfl)
  obtain ⟨sorted, order, names⟩ : ∃ sorted,
      sort (addPrelude Options.default mistaken) = .ok sorted ∧
      sorted.map Module.name = ["Left", "Right", "App"] := ⟨_, rfl, rfl⟩
  have acyclic := (sort_ok_iff (add_prelude_names Options.default mistaken ▸ distinct)).mp
    ⟨sorted, order⟩
  rw [imports_within_add_prelude known] at acyclic
  obtain ⟨sources, reports, perm, -, ⟨again, ordered, alike⟩, reported, silent, told⟩ :=
    check_reports_all distinct known acyclic
  rw [order] at ordered
  cases ordered
  have some : reports.flatten ≠ [] := by
    intro none
    obtain ⟨accepted, fine⟩ := silent none
    exact absurd fine (by rintro ⟨⟩)
  obtain ⟨refusal, refused, -, same⟩ := told some
  refine ⟨refusal, reports, refused, same, ?_, sources, perm, alike.symm.trans names, reported⟩
  cases refused
  rfl

end Findings

end Module

end PureJs
