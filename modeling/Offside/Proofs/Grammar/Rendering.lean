import Offside.Proofs.Grammar.Guides
import Offside.Proofs.Grammar.Recognition
import Offside.Proofs.Token.Writing

/-! Expressions written back as text, with parentheses only where the levels of the grammar ask for
them. Whatever expression was read from a source, its text is read as the same expression, and no
other way to write it has fewer tokens. -/
namespace Offside
open Grammar ParserState

namespace Grammar

def Level.tighter : Level → Level
  | .disjunction => .conjunction
  | .conjunction => .negation
  | .negation => .comparison
  | .comparison => .sum
  | .sum => .product
  | _ => .factor

def operatorLevel : ArithmeticOp → Level
  | .add | .subtract => .sum
  | .multiply | .divide => .product

def isOpposite : ArithmeticOp → Stmt → Bool
  | .multiply, .number value => value = -1
  | _, _ => false

end Grammar

namespace Stmt

def level : Stmt → Level
  | .either .. => .disjunction
  | .both .. => .conjunction
  | .negate _ => .negation
  | .compare .. => .comparison
  | .arithmetic op _ right => if isOpposite op right then .factor else operatorLevel op
  | _ => .factor

def enclosed (place : Level) (tree : Stmt) (tokens : List Token) : List Token :=
  if tree.level.looseness ≤ place.looseness then tokens else .char '(' :: tokens ++ [.char ')']

mutual

def rendered (classes : ClassTable) : Stmt → List Token
  | .path names => separated '.' names
  | .number value => [.number value]
  | .string content => [.string content]
  | .bool true => [.keyword .trueK]
  | .bool false => [.keyword .falseK]
  | .none => [.keyword .noneK]
  | .either left right =>
    enclosed .disjunction left (rendered classes left) ++ .keyword .orK ::
      enclosed Level.disjunction.tighter right (rendered classes right)
  | .both left right =>
    enclosed .conjunction left (rendered classes left) ++ .keyword .andK ::
      enclosed Level.conjunction.tighter right (rendered classes right)
  | .negate operand => .keyword .notK :: enclosed .negation operand (rendered classes operand)
  | .compare relation left right =>
    enclosed Level.comparison.tighter left (rendered classes left) ++ relationToken relation ::
      enclosed Level.comparison.tighter right (rendered classes right)
  | .arithmetic op left right =>
    if isOpposite op right then .char '-' :: enclosed .factor left (rendered classes left)
    else enclosed (operatorLevel op) left (rendered classes left) ++ operatorToken op ::
      enclosed (operatorLevel op).tighter right (rendered classes right)
  | .call (.path names) method args =>
    separated '.' (names ++ [method]) ++ .char '(' :: renderedList classes args ++ [.char ')']
  | .create cls args =>
    .identifier (classes.nameOf cls) :: .char '(' :: renderedList classes args ++ [.char ')']
  | .stringify value => .identifier "str" :: .char '(' :: rendered classes value ++ [.char ')']
  | _ => []

def renderedList (classes : ClassTable) : List Stmt → List Token
  | [] => []
  | head :: rest =>
    rendered classes head ++ if rest.isEmpty then [] else .char ',' :: renderedList classes rest

end

def text (classes : ClassTable) (tree : Stmt) : String :=
  String.ofList (Layout.spaced (tree.rendered classes))

end Stmt

namespace Grammar
open Stmt

variable {classes : ClassTable} {tokens : List Token} {tree left right : Stmt}

def Binds (classes : ClassTable) : Nat → List Token → Stmt → Prop
  | 0 | 1 => Expression classes .factor
  | 2 => Expression classes .product
  | 3 => Expression classes .sum
  | 4 => Expression classes .comparison
  | 5 => Expression classes .negation
  | 6 => Expression classes .conjunction
  | _ => Expression classes .disjunction

theorem Binds.loosen {tight loose : Nat} (bound : Binds classes tight tokens tree)
    (looser : tight ≤ loose) : Binds classes loose tokens tree := by
  induction looser with
  | refl => exact bound
  | @step loose _ ih =>
    match loose, ih with
    | 0, ih => exact ih
    | 1, ih => exact .ofFactor ih
    | 2, ih => exact .ofProduct ih
    | 3, ih => exact .ofSum ih
    | 4, ih => exact .ofComparison ih
    | 5, ih => exact .ofNegation ih
    | 6, ih => exact .ofConjunction ih
    | _ + 7, ih => exact ih

def Written (tokens : List Token) : Prop := ∀ token ∈ tokens, token.Writable

@[simp] theorem writtenNil : Written [] := fun _ member => by cases member

@[simp] theorem writtenCons {token : Token} :
    Written (token :: tokens) ↔ token.Writable ∧ Written tokens :=
  List.forall_mem_cons

@[simp] theorem writtenAppend {front back : List Token} :
    Written (front ++ back) ↔ Written front ∧ Written back :=
  List.forall_mem_append

theorem operatorWritable (op : ArithmeticOp) : (operatorToken op).Writable := by
  cases op <;> decide

theorem relationWritable (relation : Relation) : (relationToken relation).Writable := by
  cases relation <;> decide

theorem eitherSpelled : (Stmt.either left right).rendered classes =
    left.enclosed .disjunction (left.rendered classes) ++ .keyword .orK ::
      right.enclosed .conjunction (right.rendered classes) := by
  rw [rendered]
  rfl

theorem bothSpelled : (Stmt.both left right).rendered classes =
    left.enclosed .conjunction (left.rendered classes) ++ .keyword .andK ::
      right.enclosed .negation (right.rendered classes) := by
  rw [rendered]
  rfl

theorem compareSpelled (relation : Relation) : (Stmt.compare relation left right).rendered classes =
    left.enclosed .sum (left.rendered classes) ++ relationToken relation ::
      right.enclosed .sum (right.rendered classes) := by
  rw [rendered]
  rfl

theorem arithmeticSpelled {op : ArithmeticOp} (plain : isOpposite op right = false) :
    (Stmt.arithmetic op left right).rendered classes =
      left.enclosed (operatorLevel op) (left.rendered classes) ++ operatorToken op ::
        right.enclosed (operatorLevel op).tighter (right.rendered classes) := by
  rw [rendered, plain]
  rfl

structure Renders (classes : ClassTable) (tree : Stmt) : Prop where
  derived : Binds classes tree.level.looseness (tree.rendered classes) tree
  written : Written (tree.rendered classes)

theorem Renders.loose (renders : Renders classes tree) :
    Expression classes .disjunction (tree.rendered classes) tree := by
  have within : tree.level.looseness ≤ 8 := by cases tree.level <;> decide
  exact renders.derived.loosen within

theorem Renders.enclosed (renders : Renders classes tree) (place : Level) :
    Binds classes place.looseness (tree.enclosed place (tree.rendered classes)) tree ∧
      Written (tree.enclosed place (tree.rendered classes)) := by
  rw [Stmt.enclosed]
  split
  · rename_i within
    exact ⟨renders.derived.loosen within, renders.written⟩
  · have inside : Binds classes 1 (.char '(' :: tree.rendered classes ++ [.char ')']) tree :=
      .parenthesized renders.loose
    have least : 1 ≤ place.looseness := by cases place <;> decide
    refine ⟨inside.loosen least, ?_⟩
    simp only [List.cons_append, writtenCons, writtenAppend, renders.written, writtenNil]
    decide

theorem Renders.joined {place beside : Level} {mark : Token} (first : Renders classes left)
    (second : Renders classes right) (writable : mark.Writable)
    (spelled : tree.rendered classes = left.enclosed place (left.rendered classes) ++ mark ::
      right.enclosed beside (right.rendered classes))
    (grouped : ∀ {front back : List Token}, Binds classes place.looseness front left →
      Binds classes beside.looseness back right →
      Binds classes tree.level.looseness (front ++ mark :: back) tree) :
    Renders classes tree := by
  obtain ⟨before, front⟩ := first.enclosed place
  obtain ⟨behind, back⟩ := second.enclosed beside
  refine ⟨?_, ?_⟩
  · rw [spelled]
    exact grouped before behind
  · rw [spelled]
    exact writtenAppend.mpr ⟨front, writtenCons.mpr ⟨writable, back⟩⟩

theorem Renders.notOpposite (renders : Renders classes tree) (op : ArithmeticOp) :
    isOpposite op tree = false := by
  cases op with
  | multiply =>
    cases tree with
    | number value =>
      have positive : 0 ≤ value.toInt := renders.written (.number value) (by simp [rendered])
      by_contra negative
      simp only [isOpposite, Bool.not_eq_false, decide_eq_true_eq] at negative
      rw [negative] at positive
      exact absurd positive (by decide)
    | _ => rfl
  | _ => rfl

theorem listRendered {trees : List Stmt} (nonempty : trees ≠ [])
    (each : ∀ tree ∈ trees, Renders classes tree) :
    Expression classes .list (renderedList classes trees) trees ∧
      Written (renderedList classes trees) := by
  induction trees with
  | nil => exact absurd rfl nonempty
  | cons head rest ih =>
    obtain ⟨here, others⟩ := List.forall_mem_cons.mp each
    cases rest with
    | nil =>
      simp only [renderedList, List.isEmpty_nil, if_true, List.append_nil]
      exact ⟨.single here.loose, here.written⟩
    | cons next more =>
      obtain ⟨derived, written⟩ := ih (List.cons_ne_nil _ _) others
      rw [renderedList, List.isEmpty_cons, if_neg (by decide)]
      refine ⟨.more here.loose derived, ?_⟩
      simp only [writtenAppend, writtenCons, here.written, written]
      decide

theorem argumentsRendered {trees : List Stmt} (each : ∀ tree ∈ trees, Renders classes tree) :
    Expression classes .arguments (renderedList classes trees) trees ∧
      Written (renderedList classes trees) := by
  by_cases none : trees = []
  · subst none
    exact ⟨.absent, by simp [renderedList]⟩
  · obtain ⟨derived, written⟩ := listRendered none each
    exact ⟨.given derived, written⟩

def Restored (classes : ClassTable) : (level : Level) → level.Tree → Prop
  | .list, trees => trees ≠ [] ∧ ∀ tree ∈ trees, Renders classes tree
  | .arguments, trees => ∀ tree ∈ trees, Renders classes tree
  | .disjunction, tree | .conjunction, tree | .negation, tree | .comparison, tree | .sum, tree
  | .product, tree | .factor, tree | .call, tree => Renders classes tree

def Readable (tokens : List Token) : Prop :=
  ∀ token ∈ tokens, token.isLayout = false → token.Writable

theorem Readable.separated {names : List String} (readable : Readable tokens)
    (inside : separated '.' names ⊆ tokens) : Written (separated '.' names) := by
  intro token member
  refine readable token (inside member) ?_
  cases names with
  | nil => cases member
  | cons first rest =>
    rcases List.mem_cons.mp member with rfl | later
    · rfl
    · obtain ⟨name, -, one⟩ := List.mem_flatMap.mp later
      simp only [List.mem_cons, List.not_mem_nil, or_false] at one
      rcases one with rfl | rfl <;> rfl

theorem Resolves.spelled {path : Path} {name : String} {args : List Stmt}
    (resolved : Resolves classes path name args tree) : tree.level = .factor ∧
      tree.rendered classes = separated '.' (path ++ [name]) ++
        .char '(' :: renderedList classes args ++ [.char ')'] := by
  cases resolved with
  | method qualified => exact ⟨rfl, by rw [rendered]⟩
  | creation declared => exact ⟨rfl, by rw [rendered, ClassTable.findNamed declared]; rfl⟩
  | conversion free =>
    refine ⟨rfl, ?_⟩
    rw [rendered, renderedList, List.isEmpty_nil, if_pos rfl, List.append_nil]
    rfl

theorem Resolves.renders {path : Path} {name : String} {args : List Stmt}
    (resolved : Resolves classes path name args tree)
    (named : Written (separated '.' (path ++ [name])))
    (each : ∀ arg ∈ args, Renders classes arg) : Renders classes tree := by
  obtain ⟨given, written⟩ := argumentsRendered each
  obtain ⟨level, spelled⟩ := resolved.spelled
  refine ⟨?_, ?_⟩
  · rw [level, spelled]
    exact .ofCall (.call given resolved)
  · rw [spelled]
    simp only [List.append_assoc, List.cons_append, writtenAppend, writtenCons, named, written,
      writtenNil]
    decide

theorem Readable.part {front : List Token} (readable : Readable tokens) (inside : front ⊆ tokens) :
    Readable front :=
  fun token member => readable token (inside member)

theorem atomRenders {token : Token} (readable : Readable [token]) (solid : token.isLayout = false)
    (spelled : tree.rendered classes = [token])
    (derived : Expression classes .factor [token] tree) : Renders classes tree := by
  have tight : Binds classes 1 (tree.rendered classes) tree := by
    rw [spelled]
    exact derived
  have least : 1 ≤ tree.level.looseness := by cases tree.level <;> decide
  refine ⟨tight.loosen least, ?_⟩
  rw [spelled]
  exact writtenCons.mpr ⟨readable token List.mem_cons_self solid, writtenNil⟩

theorem arithmeticRenders {op : ArithmeticOp} (first : Renders classes left)
    (second : Renders classes right)
    (grouped : ∀ {front back : List Token},
      Binds classes (operatorLevel op).looseness front left →
      Binds classes (operatorLevel op).tighter.looseness back right →
      Binds classes (operatorLevel op).looseness (front ++ operatorToken op :: back)
        (.arithmetic op left right)) :
    Renders classes (.arithmetic op left right) := by
  have plain := second.notOpposite op
  refine first.joined second (operatorWritable op) (arithmeticSpelled plain) fun before behind => ?_
  rw [Stmt.level, plain]
  exact grouped before behind

theorem oppositeRenders (operand : Renders classes tree) :
    Renders classes (.arithmetic .multiply tree (.number (-1))) := by
  obtain ⟨derived, written⟩ := operand.enclosed .factor
  refine ⟨?_, ?_⟩
  · rw [rendered]
    exact .opposite derived
  · rw [rendered]
    exact writtenCons.mpr ⟨by decide, written⟩

theorem Expression.renders {level : Level} {tree : level.Tree}
    (derived : Expression classes level tokens tree) (readable : Readable tokens) :
    Restored classes level tree := by
  induction derived with
  | either _ _ ihLeft ihRight =>
    have first := ihLeft (readable.part (by simp))
    have second := ihRight (readable.part (by simp))
    have mark : (Token.keyword .orK).Writable := trivial
    exact first.joined second mark eitherSpelled .either
  | both _ _ ihLeft ihRight =>
    have first := ihLeft (readable.part (by simp))
    have second := ihRight (readable.part (by simp))
    have mark : (Token.keyword .andK).Writable := trivial
    exact first.joined second mark bothSpelled .both
  | negate _ ih =>
    obtain ⟨derived, written⟩ := Renders.enclosed (ih (readable.part (by simp))) .negation
    refine ⟨?_, ?_⟩
    · rw [rendered]
      exact .negate derived
    · rw [rendered]
      exact writtenCons.mpr ⟨trivial, written⟩
  | compare relation _ _ ihLeft ihRight =>
    have first := ihLeft (readable.part (by simp))
    have second := ihRight (readable.part (by simp))
    exact first.joined second (relationWritable relation) (compareSpelled relation) (.compare relation)
  | sum additive _ _ ihLeft ihRight =>
    refine arithmeticRenders (ihLeft (readable.part (by simp))) (ihRight (readable.part (by simp))) ?_
    rcases additive with rfl | rfl
    · exact .sum (.inl rfl)
    · exact .sum (.inr rfl)
  | product multiplicative _ _ ihLeft ihRight =>
    refine arithmeticRenders (ihLeft (readable.part (by simp))) (ihRight (readable.part (by simp))) ?_
    rcases multiplicative with rfl | rfl
    · exact .product (.inl rfl)
    · exact .product (.inr rfl)
  | ofConjunction _ ih | ofNegation _ ih | ofComparison _ ih | ofSum _ ih | ofProduct _ ih
  | ofFactor _ ih | ofCall _ ih => exact ih readable
  | parenthesized _ ih => exact ih (readable.part (by simp))
  | opposite _ ih => exact oppositeRenders (ih (readable.part (by simp)))
  | number value => exact atomRenders readable rfl rfl (.number value)
  | string content => exact atomRenders readable rfl rfl (.string content)
  | yes => exact atomRenders readable rfl rfl .yes
  | no => exact atomRenders readable rfl rfl .no
  | none => exact atomRenders readable rfl rfl .none
  | path nonempty =>
    refine ⟨?_, ?_⟩
    · rw [rendered]
      exact .path nonempty
    · rw [rendered]
      exact readable.separated (List.Subset.refl _)
  | call _ resolved ih =>
    have inner := ih (readable.part fun _ inside => by simp [inside])
    exact resolved.renders (readable.separated (by simp)) inner
  | single _ ih => exact ⟨List.cons_ne_nil _ _, List.forall_mem_singleton.mpr (ih readable)⟩
  | more _ _ ihHead ihRest =>
    have here := ihHead (readable.part (by simp))
    obtain ⟨-, others⟩ := ihRest (readable.part (by simp))
    exact ⟨List.cons_ne_nil _ _, List.forall_mem_cons.mpr ⟨here, others⟩⟩
  | absent => exact fun _ member => by cases member
  | given _ ih => exact (ih readable).2

def cost (classes : ClassTable) : (level : Level) → level.Tree → Nat
  | .list, trees | .arguments, trees => (renderedList classes trees).length
  | .disjunction, tree => (tree.enclosed .disjunction (tree.rendered classes)).length
  | .conjunction, tree => (tree.enclosed .conjunction (tree.rendered classes)).length
  | .negation, tree => (tree.enclosed .negation (tree.rendered classes)).length
  | .comparison, tree => (tree.enclosed .comparison (tree.rendered classes)).length
  | .sum, tree => (tree.enclosed .sum (tree.rendered classes)).length
  | .product, tree => (tree.enclosed .product (tree.rendered classes)).length
  | .factor, tree | .call, tree => (tree.enclosed .factor (tree.rendered classes)).length

theorem enclosedLooser (tree : Stmt) (tokens : List Token) {tight loose : Level}
    (looser : tight.looseness ≤ loose.looseness) :
    (tree.enclosed loose tokens).length ≤ (tree.enclosed tight tokens).length := by
  unfold Stmt.enclosed
  split
  · split
    · exact Nat.le_refl _
    · simp only [List.length_append, List.length_cons]
      omega
  · rename_i outside
    rw [if_neg fun within => outside (Nat.le_trans within looser)]

theorem enclosedFits {place : Level} {front : List Token}
    (within : tree.level.looseness ≤ place.looseness)
    (fits : front.length ≤ tokens.length) : (tree.enclosed place front).length ≤ tokens.length := by
  rw [Stmt.enclosed, if_pos within]
  exact fits

theorem enclosedNot (tree : Stmt) (tokens : List Token) :
    tree.enclosed .disjunction tokens = tokens := by
  have within : tree.level.looseness ≤ Level.disjunction.looseness := by
    unfold Stmt.level
    split
    case h_5 op _ right => cases op <;> cases isOpposite _ right <;> decide
    all_goals decide
  rw [Stmt.enclosed, if_pos within]

theorem joinedFits {outer place beside : Level} {before behind : List Token} {mark : Token}
    (within : tree.level.looseness ≤ outer.looseness)
    (spelled : tree.rendered classes = left.enclosed place (left.rendered classes) ++ mark ::
      right.enclosed beside (right.rendered classes))
    (first : (left.enclosed place (left.rendered classes)).length ≤ before.length)
    (second : (right.enclosed beside (right.rendered classes)).length ≤ behind.length) :
    (tree.enclosed outer (tree.rendered classes)).length ≤ (before ++ mark :: behind).length := by
  refine enclosedFits within ?_
  rw [spelled]
  simp only [List.length_append, List.length_cons]
  omega

theorem arithmeticFits {op : ArithmeticOp} {before behind : List Token}
    (renders : Renders classes right)
    (first : (left.enclosed (operatorLevel op) (left.rendered classes)).length ≤ before.length)
    (second : (right.enclosed (operatorLevel op).tighter (right.rendered classes)).length ≤
      behind.length) :
    ((Stmt.arithmetic op left right).enclosed (operatorLevel op)
      ((Stmt.arithmetic op left right).rendered classes)).length ≤
        (before ++ operatorToken op :: behind).length := by
  have plain := renders.notOpposite op
  have level : (Stmt.arithmetic op left right).level = operatorLevel op := by
    rw [Stmt.level, plain]
    rfl
  exact joinedFits (Nat.le_of_eq (congrArg _ level)) (arithmeticSpelled plain) first second

/- Each token of a derivation but the parentheses is one of the rendering, and each pair of
parentheses of the rendering is one of the derivation. -/
theorem Expression.shortest {level : Level} {tree : level.Tree}
    (derived : Expression classes level tokens tree) (readable : Readable tokens) :
    cost classes level tree ≤ tokens.length := by
  induction derived with
  | either _ _ ihLeft ihRight =>
    have first := ihLeft (readable.part (by simp))
    have second := ihRight (readable.part (by simp))
    exact joinedFits (Nat.le_refl _) eitherSpelled first second
  | both _ _ ihLeft ihRight =>
    have first := ihLeft (readable.part (by simp))
    have second := ihRight (readable.part (by simp))
    exact joinedFits (Nat.le_refl _) bothSpelled first second
  | negate _ ih =>
    refine enclosedFits (Nat.le_refl _) ?_
    rw [rendered]
    exact Nat.succ_le_succ (ih (readable.part (by simp)))
  | compare relation _ _ ihLeft ihRight =>
    have first := ihLeft (readable.part (by simp))
    have second := ihRight (readable.part (by simp))
    exact joinedFits (Nat.le_refl _) (compareSpelled relation) first second
  | sum additive _ second ihLeft ihRight =>
    have right := readable.part (List.subset_append_of_subset_right _ (List.subset_cons_self _ _))
    have before := ihLeft (readable.part (by simp))
    have behind := ihRight right
    rcases additive with rfl | rfl
    · exact arithmeticFits (second.renders right) before behind
    · exact arithmeticFits (second.renders right) before behind
  | product multiplicative _ second ihLeft ihRight =>
    have right := readable.part (List.subset_append_of_subset_right _ (List.subset_cons_self _ _))
    have before := ihLeft (readable.part (by simp))
    have behind := ihRight right
    rcases multiplicative with rfl | rfl
    · exact arithmeticFits (second.renders right) before behind
    · exact arithmeticFits (second.renders right) before behind
  | ofConjunction _ ih | ofNegation _ ih | ofComparison _ ih | ofSum _ ih | ofProduct _ ih
  | ofFactor _ ih =>
    exact Nat.le_trans (enclosedLooser _ _ (by decide)) (ih readable)
  | ofCall _ ih => exact ih readable
  | parenthesized _ ih =>
    have inner := ih (readable.part (by simp))
    rw [cost, enclosedNot] at inner
    rw [cost, Stmt.enclosed]
    split
    · simp only [List.length_append, List.length_cons]
      omega
    · simpa using inner
  | opposite _ ih =>
    refine enclosedFits (Nat.le_refl _) ?_
    rw [rendered]
    exact Nat.succ_le_succ (ih (readable.part (by simp)))
  | number | string | yes | no | none | path =>
    refine enclosedFits (Nat.le_refl _) ?_
    rw [rendered]
  | call _ resolved ih =>
    have inner := ih (readable.part fun _ inside => by simp [inside])
    obtain ⟨level, spelled⟩ := resolved.spelled
    refine enclosedFits (by rw [level]) ?_
    rw [spelled]
    rw [cost] at inner
    simp only [List.length_append, List.length_cons]
    omega
  | single _ ih =>
    have only := ih readable
    rw [cost, enclosedNot] at only
    simpa [cost, renderedList] using only
  | more _ _ ihHead ihRest =>
    have here := ihHead (readable.part (by simp))
    have others := ihRest (readable.part (by simp))
    rw [cost, enclosedNot] at here
    rw [cost] at others ⊢
    rw [renderedList]
    split
    · simp only [List.append_nil, List.length_append]
      omega
    · simp only [List.length_append, List.length_cons]
      omega
  | absent => exact Nat.le_refl _
  | given _ ih => exact ih readable

end Grammar

namespace Program

theorem textWritten {classes : ClassTable} {tree : Stmt} (some : tree.rendered classes ≠ []) :
    ("x = " ++ tree.text classes).toList =
      Layout.spaced (.identifier "x" :: .char '=' :: tree.rendered classes) := by
  obtain ⟨token, rest, spelled⟩ := List.exists_cons_of_ne_nil some
  rw [Stmt.text, String.toList_append, String.toList_ofList, spelled, Layout.spacedMore,
    Layout.spacedMore, String.toList_ofList]
  rfl

theorem textTokens {classes : ClassTable} {tree : Stmt} (renders : Renders classes tree) :
    (Source.ofString ("x = " ++ tree.text classes)).tokens =
      .ok (.identifier "x" :: .char '=' :: tree.rendered classes ++ [.newline] ++ [.eof]) := by
  obtain ⟨first, rest, spelled, -⟩ := renders.loose.starts (by decide)
  have some : tree.rendered classes ≠ [] := by simp [spelled]
  have writable : Written (.identifier "x" :: .char '=' :: tree.rendered classes) := by
    simp only [writtenCons, renders.written]
    decide
  let row : Layout.Row := ⟨0, _, List.cons_ne_nil _ _, writable⟩
  have text : ("x = " ++ tree.text classes).toList = row.text := textWritten some
  have cut : ("x = " ++ tree.text classes).toList.splitOn '\n' = [row.text] := by
    rw [text]
    exact List.splitOn_eq_singleton (Layout.rowOneLine row)
  have plain : ∀ line ∈ [row.text], line.rdropWhile (· == '\r') = line :=
    List.forall_mem_singleton.mpr (Layout.rowUntrimmed row)
  rw [Layout.tokensOfLines cut plain]
  refine (Layout.rowsFrom [row] 0 0).trans ?_
  simp [Layout.rowTokens, Layout.stepsNone, row]

/-- An expression that was accepted anywhere in a source is read from its own text as it is, and no
writing of it is shorter. -/
theorem expressionReadBack {bytes : List UInt8} {state after : ParserState} {depth : Nat} {tree : Stmt}
    (reached : state.lexemes <:+ (TokenStream.ofSource (.ofBytes bytes)).lexemes)
    (accepted : Parser.expressionWithin depth state = .done tree after) :
    (∃ final, parseWith state.classes (.ofString ("x = " ++ tree.text state.classes)) =
      .done ⟨[.assign "x" tree], state.classes⟩ final) ∧
    ∀ tokens, Expression state.classes .disjunction tokens tree → Written tokens →
      (tree.rendered state.classes).length ≤ tokens.length := by
  obtain ⟨tokens, took, derived⟩ := Parser.expressionWithinSound depth accepted
  have readable : Readable tokens := by
    intro token member solid
    have inside : token ∈ state.lexemes.map (·.token) := by
      change token ∈ state.tokens
      rw [took.tokens]
      exact List.mem_append_left _ member
    obtain ⟨lexeme, found, rfl⟩ := List.mem_map.mp inside
    exact TokenStream.sourceWritable (reached.subset found) solid
  have renders : Renders state.classes tree := derived.renders readable
  refine ⟨?_, fun other derived written => ?_⟩
  · have derives : Derives .statements state.classes
        (.identifier "x" :: .char '=' :: tree.rendered state.classes ++ [.newline] ++ [])
        [.assign "x" tree] state.classes :=
      .next (.simple (.assign renders.loose)) .finished
    rw [List.append_nil] at derives
    exact parseWithComplete (textTokens renders) derives
  · have least := derived.shortest fun token member _ => written token member
    rwa [cost, enclosedNot] at least

def signed : Source := .ofString "n = -((n - 2) - 3) * str(\"it's\") or not (a.b == 1)"

theorem expressionReadBackSigned : ∃ state tree after final,
    state.lexemes <:+ (TokenStream.ofSource signed).lexemes ∧
    Parser.expressionWithin 9 state = .done tree after ∧
    tree.text state.classes = "- ( n - 2 - 3 ) * str ( \"it's\" ) or not a . b == 1" ∧
    parseWith state.classes (.ofString ("x = " ++ tree.text state.classes)) =
      .done ⟨[.assign "x" tree], state.classes⟩ final := by
  have read : (match (TokenStream.ofSource signed).lexemes.drop 2 with
      | [] => none
      | first :: rest =>
        match Parser.expressionWithin 9 ⟨first, rest, none, .empty, .empty⟩ with
        | .done tree _ => some (tree.text .empty)
        | _ => none) = some "- ( n - 2 - 3 ) * str ( \"it's\" ) or not a . b == 1" := by
    decide +kernel
  cases held : (TokenStream.ofSource signed).lexemes.drop 2 with
  | nil =>
    rw [held] at read
    cases read
  | cons first rest =>
    rw [held] at read
    let state : ParserState := ⟨first, rest, none, .empty, .empty⟩
    have reached : state.lexemes <:+ (TokenStream.ofSource signed).lexemes := by
      change first :: rest <:+ _
      rw [← held]
      exact List.drop_suffix 2 _
    cases ran : Parser.expressionWithin 9 state with
    | done tree after =>
      simp only [state] at ran
      simp only [ran, Option.some.injEq] at read
      obtain ⟨⟨final, parsed⟩, -⟩ := expressionReadBack reached ran
      exact ⟨state, tree, after, final, reached, ran, read, parsed⟩
    | failed error after =>
      simp only [state] at ran
      simp [ran] at read
    | exhausted =>
      simp only [state] at ran
      simp [ran] at read

end Program

end Offside
