import Offside.Program.ClassTable
import Offside.Token.Basic

/-! The grammar, as relations between tokens and trees. They say which tokens a tree is written with
and nothing about how it is found: an operator that groups to the left has its own level on the
left. The classes that can be named are part of the grammar. An expression only looks them up, a
statement relates the table before it to the table after it. -/
namespace Offside.Grammar

def separated (mark : Char) : List String → List Token
  | [] => []
  | first :: rest => .identifier first :: rest.flatMap fun name => [.char mark, .identifier name]

def relationToken : Relation → Token
  | .equal => .eq
  | .notEqual => .notEq
  | .less => .char '<'
  | .greater => .char '>'
  | .lessOrEqual => .lessOrEq
  | .greaterOrEqual => .greaterOrEq

def operatorToken : ArithmeticOp → Token
  | .add => .char '+'
  | .subtract => .char '-'
  | .multiply => .char '*'
  | .divide => .char '/'

/- What a call stands for. A name in front of the parentheses that is neither a class nor the
conversion to text stands for nothing. -/
inductive Resolves (classes : ClassTable) : Path → String → List Stmt → Stmt → Prop where
  | method {path : Path} {name : String} {args : List Stmt} (qualified : path ≠ []) :
      Resolves classes path name args (.call (.path path) name args)
  | creation {name : String} {args : List Stmt} {cls : ClassId}
      (declared : classes.find? name = some cls) : Resolves classes [] name args (.create cls args)
  | conversion {arg : Stmt} (free : classes.find? "str" = none) :
      Resolves classes [] "str" [arg] (.stringify arg)

inductive Level where
  | disjunction | conjunction | negation | comparison | sum | product | factor
  | call | list | arguments
  deriving DecidableEq

abbrev Level.Tree : Level → Type
  | .list | .arguments => List Stmt
  | _ => Stmt

inductive Expression (classes : ClassTable) : (level : Level) → List Token → level.Tree → Prop where
  | either {left right : List Token} {a b : Stmt}
      (first : Expression classes .disjunction left a)
      (second : Expression classes .conjunction right b) :
      Expression classes .disjunction (left ++ .keyword .orK :: right) (.either a b)
  | ofConjunction {tokens : List Token} {tree : Stmt}
      (only : Expression classes .conjunction tokens tree) :
      Expression classes .disjunction tokens tree
  | both {left right : List Token} {a b : Stmt}
      (first : Expression classes .conjunction left a)
      (second : Expression classes .negation right b) :
      Expression classes .conjunction (left ++ .keyword .andK :: right) (.both a b)
  | ofNegation {tokens : List Token} {tree : Stmt}
      (only : Expression classes .negation tokens tree) :
      Expression classes .conjunction tokens tree
  | negate {tokens : List Token} {tree : Stmt}
      (operand : Expression classes .negation tokens tree) :
      Expression classes .negation (.keyword .notK :: tokens) (.negate tree)
  | ofComparison {tokens : List Token} {tree : Stmt}
      (only : Expression classes .comparison tokens tree) :
      Expression classes .negation tokens tree
  | compare {left right : List Token} {a b : Stmt} (relation : Relation)
      (first : Expression classes .sum left a) (second : Expression classes .sum right b) :
      Expression classes .comparison (left ++ relationToken relation :: right)
        (.compare relation a b)
  | ofSum {tokens : List Token} {tree : Stmt} (only : Expression classes .sum tokens tree) :
      Expression classes .comparison tokens tree
  | sum {left right : List Token} {a b : Stmt} {op : ArithmeticOp}
      (additive : op = .add ∨ op = .subtract)
      (first : Expression classes .sum left a) (second : Expression classes .product right b) :
      Expression classes .sum (left ++ operatorToken op :: right) (.arithmetic op a b)
  | ofProduct {tokens : List Token} {tree : Stmt}
      (only : Expression classes .product tokens tree) : Expression classes .sum tokens tree
  | product {left right : List Token} {a b : Stmt} {op : ArithmeticOp}
      (multiplicative : op = .multiply ∨ op = .divide)
      (first : Expression classes .product left a) (second : Expression classes .factor right b) :
      Expression classes .product (left ++ operatorToken op :: right) (.arithmetic op a b)
  | ofFactor {tokens : List Token} {tree : Stmt}
      (only : Expression classes .factor tokens tree) : Expression classes .product tokens tree
  | parenthesized {tokens : List Token} {tree : Stmt}
      (inner : Expression classes .disjunction tokens tree) :
      Expression classes .factor (.char '(' :: tokens ++ [.char ')']) tree
  | opposite {tokens : List Token} {tree : Stmt}
      (operand : Expression classes .factor tokens tree) :
      Expression classes .factor (.char '-' :: tokens)
        (.arithmetic .multiply tree (.number (-1)))
  | number (value : Int64) : Expression classes .factor [.number value] (.number value)
  | string (content : String) : Expression classes .factor [.string content] (.string content)
  | yes : Expression classes .factor [.keyword .trueK] (.bool true)
  | no : Expression classes .factor [.keyword .falseK] (.bool false)
  | none : Expression classes .factor [.keyword .noneK] .none
  | path {names : Path} (nonempty : names ≠ []) :
      Expression classes .factor (separated '.' names) (.path names)
  | ofCall {tokens : List Token} {tree : Stmt} (only : Expression classes .call tokens tree) :
      Expression classes .factor tokens tree
  | call {path : Path} {name : String} {tokens : List Token} {args : List Stmt} {tree : Stmt}
      (given : Expression classes .arguments tokens args)
      (resolved : Resolves classes path name args tree) :
      Expression classes .call
        (separated '.' (path ++ [name]) ++ .char '(' :: tokens ++ [.char ')']) tree
  | single {tokens : List Token} {tree : Stmt}
      (only : Expression classes .disjunction tokens tree) :
      Expression classes .list tokens [tree]
  | more {tokens others : List Token} {tree : Stmt} {trees : List Stmt}
      (head : Expression classes .disjunction tokens tree)
      (rest : Expression classes .list others trees) :
      Expression classes .list (tokens ++ .char ',' :: others) (tree :: trees)
  | absent : Expression classes .arguments [] []
  | given {tokens : List Token} {trees : List Stmt}
      (present : Expression classes .list tokens trees) :
      Expression classes .arguments tokens trees

inductive Simple (classes : ClassTable) : List Token → Stmt → Prop where
  | result {tokens : List Token} {value : Stmt}
      (given : Expression classes .disjunction tokens value) :
      Simple classes (.keyword .returnK :: tokens) (.result value)
  | print {tokens : List Token} {args : List Stmt}
      (given : Expression classes .arguments tokens args) :
      Simple classes (.keyword .printK :: tokens) (.print args)
  | assign {name : String} {tokens : List Token} {value : Stmt}
      (given : Expression classes .disjunction tokens value) :
      Simple classes (.identifier name :: .char '=' :: tokens) (.assign name value)
  | setField {path : Path} {field : String} {tokens : List Token} {value : Stmt}
      (qualified : path ≠ []) (given : Expression classes .disjunction tokens value) :
      Simple classes (separated '.' (path ++ [field]) ++ .char '=' :: tokens)
        (.setField path field value)
  | call {tokens : List Token} {tree : Stmt} (made : Expression classes .call tokens tree) :
      Simple classes tokens tree

inductive Base (classes : ClassTable) : List Token → Option ClassId → Prop where
  | absent : Base classes [] none
  | named {base : String} {parent : ClassId} (declared : classes.find? base = some parent) :
      Base classes [.char '(', .identifier base, .char ')'] (some parent)

inductive Phrase where
  | statement | statements | suite | methods
  deriving DecidableEq

abbrev Phrase.Tree : Phrase → Type
  | .statement | .suite => Stmt
  | .statements => List Stmt
  | .methods => List Method

/- The class table goes through the parts of a phrase from left to right. A class is entered at the
end of its definition, and its name has to be free there and not where the definition starts. -/
inductive Derives : (phrase : Phrase) → ClassTable → List Token → phrase.Tree → ClassTable → Prop where
  | simple {classes : ClassTable} {tokens : List Token} {tree : Stmt}
      (line : Simple classes tokens tree) :
      Derives .statement classes (tokens ++ [.newline]) tree classes
  | branch {before after : ClassTable} {test body : List Token} {condition yes : Stmt}
      (tested : Expression before .disjunction test condition)
      (positive : Derives .suite before body yes after) :
      Derives .statement before (.keyword .ifK :: test ++ .char ':' :: body)
        (.branch condition yes none) after
  | branchElse {before between after : ClassTable} {test body other : List Token}
      {condition yes no : Stmt} (tested : Expression before .disjunction test condition)
      (positive : Derives .suite before body yes between)
      (negative : Derives .suite between other no after) :
      Derives .statement before
        (.keyword .ifK :: test ++ .char ':' :: body ++ .keyword .elseK :: .char ':' :: other)
        (.branch condition yes (some no)) after
  | define {before after : ClassTable} {name : String} {base body : List Token}
      {parent : Option ClassId} {methods : List Method} (inherits : Base before base parent)
      (declared : Derives .methods before body methods after) (nonempty : methods ≠ [])
      (free : after.find? name = none) :
      Derives .statement before
        (.keyword .classK :: .identifier name :: base ++
          .char ':' :: .newline :: .indent :: body ++ [.dedent])
        (.define after.classes.size) (after.declare name parent methods)
  | finished {classes : ClassTable} : Derives .statements classes [] [] classes
  | next {before between after : ClassTable} {tokens others : List Token} {tree : Stmt}
      {trees : List Stmt} (head : Derives .statement before tokens tree between)
      (rest : Derives .statements between others trees after) :
      Derives .statements before (tokens ++ others) (tree :: trees) after
  | suite {before after : ClassTable} {tokens : List Token} {body : List Stmt}
      (inside : Derives .statements before tokens body after) (nonempty : body ≠ []) :
      Derives .suite before (.newline :: .indent :: tokens ++ [.dedent]) (.block body) after
  | noMethods {classes : ClassTable} : Derives .methods classes [] [] classes
  | method {before between after : ClassTable} {name : String} {params : List String}
      {body others : List Token} {tree : Stmt} {methods : List Method}
      (inside : Derives .suite before body tree between)
      (rest : Derives .methods between others methods after) :
      Derives .methods before
        (.keyword .defK :: .identifier name :: .char '(' :: separated ',' params ++
          .char ')' :: .char ':' :: body ++ others)
        (⟨name, params, tree⟩ :: methods) after

def Parses (tokens : List Token) (program : Program) : Prop :=
  Derives .statements .empty tokens program.statements program.classes

end Offside.Grammar
