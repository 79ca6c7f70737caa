/-! The tokens of the language and the names they go by in messages. -/

namespace Offside

inductive Keyword where
  | classK | returnK | ifK | elseK | defK | printK | andK | orK | notK | noneK | trueK | falseK
  deriving DecidableEq, Repr

namespace Keyword

def all : List Keyword :=
  [classK, returnK, ifK, elseK, defK, printK, andK, orK, notK, noneK, trueK, falseK]

def spelling : Keyword → String
  | classK => "class"
  | returnK => "return"
  | ifK => "if"
  | elseK => "else"
  | defK => "def"
  | printK => "print"
  | andK => "and"
  | orK => "or"
  | notK => "not"
  | noneK => "None"
  | trueK => "True"
  | falseK => "False"

def label : Keyword → String
  | classK => "Class"
  | returnK => "Return"
  | ifK => "If"
  | elseK => "Else"
  | defK => "Def"
  | printK => "Print"
  | andK => "And"
  | orK => "Or"
  | notK => "Not"
  | noneK => "None"
  | trueK => "True"
  | falseK => "False"

theorem memAll (keyword : Keyword) : keyword ∈ all := by
  cases keyword <;> decide

end Keyword

inductive Token where
  | number (value : Int64)
  | identifier (name : String)
  | char (symbol : Char)
  | string (content : String)
  | keyword (word : Keyword)
  | eq
  | notEq
  | lessOrEq
  | greaterOrEq
  | newline
  | indent
  | dedent
  | eof
  deriving DecidableEq, Repr

namespace Token

def label : Token → String
  | number value => "Number\x7b" ++ toString value.toInt ++ "\x7d"
  | identifier name => "Identifier\x7b" ++ name ++ "\x7d"
  | char symbol => "Char\x7b" ++ String.singleton symbol ++ "\x7d"
  | string content => "String\x7b" ++ content ++ "\x7d"
  | keyword word => word.label
  | eq => "Eq"
  | notEq => "NotEq"
  | lessOrEq => "LessOrEq"
  | greaterOrEq => "GreaterOrEq"
  | newline => "Newline"
  | indent => "Indent"
  | dedent => "Dedent"
  | eof => "Eof"

end Token

end Offside
