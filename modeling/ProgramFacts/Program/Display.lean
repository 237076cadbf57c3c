import ProgramFacts.Program.Arena
import ProgramFacts.Decimal.Layout
import ProgramFacts.Text.Quoted

/-! The text of nodes, for people to read: `x = 5`, `if b goto #7`,
`virtualinvoke r.<Foo: int bar(int)>(x)`.  Targets are written as tokens, and a token that does not
resolve as `<dangling #n>`.  A text is `none` where writing it does not come to an end: where it
names a type or a value that is nested in itself.  All other nodes have a text. -/

namespace ProgramFacts.Program

/-- The text of a token that does not resolve to the expected kind. -/
def danglingText (id : NodeId) : String := "<dangling " ++ id.text ++ ">"

namespace Arena

/-- The text of a type, if it nests at most `depth` deep. -/
def typeTextWithin? (g : Arena) : Nat → TypeId → Option String
  | 0, _ => none
  | depth + 1, id =>
    match g.type id with
    | .ok (.reference className) => some className
    | .ok (.prim prim) => some prim.keyword
    | .ok .void => some "void"
    | .ok (.array element) => (g.typeTextWithin? depth element).map (· ++ "[]")
    | .error _ => some (danglingText id)

/-- The text of a type.  No type nests deeper than the arena has nodes, unless it is nested in
itself, and then it has no text. -/
def typeText? (g : Arena) (id : TypeId) : Option String := g.typeTextWithin? (g.size + 1) id

def methodText? (g : Arena) (id : MethodId) : Option String :=
  match g.method id with
  | .ok m => do
    let result ← g.typeText? m.returnType
    let parameters ← m.parameterTypes.mapM g.typeText?
    return "<" ++ m.declaringClass ++ ": " ++ result ++ " " ++ m.name ++ "(" ++
      ",".intercalate parameters ++ ")>"
  | .error _ => some (danglingText id)

def fieldText? (g : Arena) (id : FieldId) : Option String :=
  match g.field id with
  | .ok f => do
    let ty ← g.typeText? f.ty
    return "<" ++ f.declaringClass ++ ": " ++ ty ++ " " ++ f.name ++ ">"
  | .error _ => some (danglingText id)

/-- The text of a value whose operands have the texts `operand`. -/
def valueTextWith? (g : Arena) (operand : ValueId → Option String) : Value → Option String
  | .localVar name _ => some name
  | .parameterRef index ty => do
    return "@parameter" ++ toString index.toNat ++ ": " ++ (← g.typeText? ty)
  | .thisRef ty => do return "@this: " ++ (← g.typeText? ty)
  | .caughtException => some "@caughtexception"
  | .instanceField base field => do return (← operand base) ++ "." ++ (← g.fieldText? field)
  | .staticField field => g.fieldText? field
  | .arrayElement base index => do return (← operand base) ++ "[" ++ (← operand index) ++ "]"
  | .instanceInvoke dispatch base method args => do
    let base ← operand base
    let method ← g.methodText? method
    let args ← args.mapM operand
    return dispatch.keyword ++ " " ++ base ++ "." ++ method ++ "(" ++ ", ".intercalate args ++ ")"
  | .staticInvoke method args => do
    let method ← g.methodText? method
    let args ← args.mapM operand
    return "staticinvoke " ++ method ++ "(" ++ ", ".intercalate args ++ ")"
  | .stringConst value => some (Text.quoted value)
  | .intConst value => some (toString value.toInt)
  | .longConst value => some (toString value.toInt ++ "L")
  | .floatConst value => some (Decimal.Layout.plain.write value.read ++ "F")
  | .doubleConst value => some (Decimal.Layout.plain.write value.read)
  | .nullConst => some "null"
  | .classConst name => some ("class " ++ Text.quoted name)
  | .binary op left right => do
    return (← operand left) ++ " " ++ op.symbol ++ " " ++ (← operand right)
  | .negate op => do return "neg " ++ (← operand op)
  | .lengthOf op => do return "lengthof " ++ (← operand op)
  | .cast op ty => do return "(" ++ (← g.typeText? ty) ++ ") " ++ (← operand op)
  | .instanceOf op ty => do return (← operand op) ++ " instanceof " ++ (← g.typeText? ty)
  | .newObject ty => do return "new " ++ (← g.typeText? ty)
  | .newArray element size => do
    return "newarray (" ++ (← g.typeText? element) ++ ")[" ++ (← operand size) ++ "]"
  | .newMultiArray element sizes => do
    let element ← g.typeText? element
    let sizes ← sizes.mapM operand
    return "newmultiarray (" ++ element ++ ")" ++
      String.join (sizes.map fun size => "[" ++ size ++ "]")

/-- The text of a value, if it nests at most `depth` deep. -/
def valueTextWithin? (g : Arena) : Nat → ValueId → Option String
  | 0, _ => none
  | depth + 1, id =>
    match g.value id with
    | .ok v => g.valueTextWith? (g.valueTextWithin? depth) v
    | .error _ => some (danglingText id)

/-- The text of a value.  No value nests deeper than the arena has nodes, unless it is nested in
itself, and then it has no text. -/
def valueText? (g : Arena) (id : ValueId) : Option String := g.valueTextWithin? (g.size + 1) id

/-- The cases of a switch: its labels and targets side by side, with `<missing>` for the rest of the
shorter list. -/
def caseTexts : List String → List StmtId → String
  | [], [] => ""
  | label :: labels, [] => " case " ++ label ++ ": <missing>;" ++ caseTexts labels []
  | [], target :: targets => " case <missing>: goto " ++ target.text ++ ";" ++ caseTexts [] targets
  | label :: labels, target :: targets =>
    " case " ++ label ++ ": goto " ++ target.text ++ ";" ++ caseTexts labels targets

def switchText (keyword key cases : String) (default : StmtId) : String :=
  keyword ++ "(" ++ key ++ ") \x7b" ++ cases ++ " default: goto " ++ default.text ++ "; \x7d"

def stmtText? (g : Arena) (id : StmtId) : Option String :=
  match g.stmt id with
  | .ok (.identity left right) => do
    return (← g.valueText? left) ++ " := " ++ (← g.valueText? right)
  | .ok (.assign left right) => do return (← g.valueText? left) ++ " = " ++ (← g.valueText? right)
  | .ok (.returnValue op) => do return "return " ++ (← g.valueText? op)
  | .ok .returnVoid => some "return"
  | .ok (.invoke expr) => g.valueText? expr
  | .ok (.ifGoto condition target) => do
    return "if " ++ (← g.valueText? condition) ++ " goto " ++ target.text
  | .ok (.goto target) => some ("goto " ++ target.text)
  | .ok (.tableSwitch key low targets default) => do
    let key ← g.valueText? key
    let labels := targets.mapIdx fun i _ => toString (low.toInt + i)
    return switchText "tableswitch" key (caseTexts labels targets) default
  | .ok (.lookupSwitch key labels targets default) => do
    let key ← g.valueText? key
    let labels ← labels.mapM g.valueText?
    return switchText "lookupswitch" key (caseTexts labels targets) default
  | .ok (.throwValue op) => do return "throw " ++ (← g.valueText? op)
  | .ok (.enterMonitor op) => do return "entermonitor " ++ (← g.valueText? op)
  | .ok (.exitMonitor op) => do return "exitmonitor " ++ (← g.valueText? op)
  | .error _ => some (danglingText id)

end Arena

end ProgramFacts.Program
