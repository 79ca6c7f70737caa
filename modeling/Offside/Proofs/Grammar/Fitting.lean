import Offside.Proofs.Grammar.Entry
import Offside.Proofs.Program.Nodes
import Offside.Proofs.Token.Stream

/-! Which trees stand in which slots. A parsed program has statements only where statements are listed, and
blocks only as bodies; whatever is an operand has a value of its own. Names come from the text, so
they begin as names do, and so do numbers, which have no sign there. -/
namespace Offside

def Text.startsName (text : String) : Bool := text.toList.head?.any isNameStart

def Path.startsName : Path → Bool
  | [] => false
  | first :: _ => Text.startsName first

namespace Token

def Proper : Token → Prop
  | .number value => 0 ≤ value.toInt
  | .identifier name => Text.startsName name = true
  | _ => True

theorem spelledProper {token : Token} {spelling : List Char} (spelled : token.Spelled spelling) :
    token.Proper := by
  cases spelled with
  | number _ _ exact =>
    rw [Proper, Integer.ofIntExact exact]
    exact Int.natCast_nonneg _
  | identifier start => simp [Proper, Text.startsName, start]
  | comparison member =>
    simp only [comparisonTable, List.mem_cons, List.not_mem_nil, or_false, Prod.mk.injEq] at member
    rcases member with ⟨-, rfl⟩ | ⟨-, rfl⟩ | ⟨-, rfl⟩ | ⟨-, rfl⟩ <;> trivial
  | keyword | symbol | quoted => trivial

theorem layoutProper {token : Token} (layout : token.isLayout = true) : token.Proper := by
  cases token with
  | newline | indent | dedent | eof => trivial
  | _ => cases layout

end Token

theorem Source.tokensProper {source : Source} {tokens : List Token}
    (read : source.tokens = .ok tokens) : ∀ token ∈ tokens, token.Proper := by
  intro token member
  have listed : tokens = (TokenStream.ofSource source).tokens := by
    unfold Source.tokens at read
    dsimp only at read
    split at read
    · cases read
    · exact (Except.ok.inj read).symm
  rw [listed] at member
  obtain ⟨lexeme, inside, rfl⟩ := List.mem_map.mp member
  cases layout : lexeme.token.isLayout with
  | true => exact Token.layoutProper layout
  | false =>
    obtain ⟨_, _, _, -, -, scanned⟩ := TokenStream.sourceScans inside layout
    obtain ⟨_, spelled, -⟩ := Token.scanSpelled scanned
    exact Token.spelledProper spelled

def Slot.isOperand : Slot → Bool
  | .operand | .multiplier => true
  | _ => false

namespace Stmt

def isPath : Stmt → Bool
  | .path _ => true
  | _ => false

def isStatement : Stmt → Bool
  | .assign .. | .setField .. | .result _ | .print _ | .branch .. | .define _ => true
  | _ => false

end Stmt

namespace Node

/-- Whether a tree stands where such a tree may stand. The one number below zero is the multiplier by
which a value is negated. -/
def fits (node : Node) : Bool :=
  match node.tree with
  | .block body => node.slot == .suite && !body.isEmpty
  | .assign .. | .result _ | .print _ | .branch .. | .define _ => node.slot == .member
  | .setField target _ _ => node.slot == .member && target.startsName
  | .path names => (node.slot == .receiver || node.slot.isOperand) && names.startsName
  | .call receiver _ _ => receiver.isPath && (node.slot == .member || node.slot.isOperand)
  | .create .. | .stringify _ => node.slot == .member || node.slot.isOperand
  | .number value =>
    node.slot.isOperand && decide (0 ≤ value.toInt) || node.slot == .multiplier && value == -1
  | .string _ | .bool _ | .none | .arithmetic .. | .both .. | .either .. | .negate _ | .compare .. =>
    node.slot.isOperand

variable {node : Node}

theorem fitsReceiver (fit : node.fits = true) {receiver : Stmt} {method : String} {args : List Stmt}
    (call : node.tree = .call receiver method args) : ∃ names, receiver = .path names := by
  rw [fits, call] at fit
  cases receiver with
  | path names => exact ⟨names, rfl⟩
  | _ => cases fit

theorem fitsSuite (fit : node.fits = true) (suite : node.slot = .suite) :
    ∃ body, node.tree = .block body ∧ body ≠ [] := by
  rw [fits, suite] at fit
  cases tree : node.tree with
  | block body =>
    rw [tree] at fit
    exact ⟨body, rfl, by simpa using fit⟩
  | call receiver =>
    rw [tree] at fit
    cases receiver <;> cases fit
  | _ =>
    rw [tree] at fit
    cases fit

theorem fitsBlock (fit : node.fits = true) {body : List Stmt} (block : node.tree = .block body) :
    node.slot = .suite := by
  rw [fits, block] at fit
  exact eq_of_beq (Bool.and_eq_true_iff.mp fit).1

theorem fitsStatement (fit : node.fits = true) (statement : node.tree.isStatement = true) :
    node.slot = .member := by
  rw [fits] at fit
  cases tree : node.tree with
  | assign | result | print | branch | define =>
    rw [tree] at fit
    exact eq_of_beq fit
  | setField =>
    rw [tree] at fit
    exact eq_of_beq (Bool.and_eq_true_iff.mp fit).1
  | _ =>
    rw [tree] at statement
    cases statement

theorem fitsNumber (fit : node.fits = true) {value : Int64} (number : node.tree = .number value) :
    0 ≤ value.toInt ∨ value = -1 ∧ node.slot = .multiplier := by
  rw [fits, number] at fit
  rcases Bool.or_eq_true_iff.mp fit with positive | negative
  · exact .inl (of_decide_eq_true (Bool.and_eq_true_iff.mp positive).2)
  · obtain ⟨slot, opposite⟩ := Bool.and_eq_true_iff.mp negative
    exact .inr ⟨eq_of_beq opposite, eq_of_beq slot⟩

end Node

namespace Stmt

def Fits (slot : Slot) (tree : Stmt) : Prop := ∀ node ∈ tree.nodes slot, node.fits = true

def AllFit (slot : Slot) (trees : List Stmt) : Prop := ∀ tree ∈ trees, tree.Fits slot

variable {slot : Slot} {tree : Stmt}

theorem fitsLeaf (here : Node.fits ⟨slot, tree⟩ = true) (leaf : tree.parts = []) : tree.Fits slot := by
  intro node member
  rw [nodes, leaf] at member
  rw [List.mem_singleton.mp member]
  exact here

theorem fitsOver {value : Stmt} {inner : Slot} (here : Node.fits ⟨slot, tree⟩ = true)
    (only : value.Fits inner) (parts : tree.parts = value.nodes inner) : tree.Fits slot := by
  rw [Fits, nodes, parts]
  exact List.forall_mem_cons.mpr ⟨here, only⟩

theorem fitsPair {left right : Stmt} {inner other : Slot} (here : Node.fits ⟨slot, tree⟩ = true)
    (first : left.Fits inner) (second : right.Fits other)
    (parts : tree.parts = left.nodes inner ++ right.nodes other) : tree.Fits slot := by
  rw [Fits, nodes, parts]
  exact List.forall_mem_cons.mpr ⟨here, List.forall_mem_append.mpr ⟨first, second⟩⟩

theorem fitsList {args : List Stmt} {inner : Slot} (here : Node.fits ⟨slot, tree⟩ = true)
    (given : AllFit inner args) (parts : tree.parts = partsAll inner args) : tree.Fits slot := by
  rw [Fits, nodes, parts]
  exact List.forall_mem_cons.mpr ⟨here, allParts.mpr given⟩

theorem Fits.multiplier (fits : tree.Fits .operand) : tree.Fits .multiplier := by
  obtain ⟨here, below⟩ := List.forall_mem_cons.mp fits
  refine List.forall_mem_cons.mpr ⟨?_, below⟩
  cases tree with
  | number value =>
    have positive : 0 ≤ value.toInt := by simpa [Node.fits, Slot.isOperand] using here
    simp [Node.fits, Slot.isOperand, positive]
  | _ => exact here

theorem Fits.member (fits : tree.Fits .operand) (call : tree.isCall = true) : tree.Fits .member := by
  obtain ⟨here, below⟩ := List.forall_mem_cons.mp fits
  refine List.forall_mem_cons.mpr ⟨?_, below⟩
  cases tree with
  | call | create | stringify => exact here
  | _ => cases call

end Stmt

namespace Grammar

theorem separatedProper {mark : Char} {names : Path} (nonempty : names ≠ [])
    (proper : ∀ token ∈ separated mark names, token.Proper) : names.startsName = true := by
  cases names with
  | nil => exact absurd rfl nonempty
  | cons first rest => exact proper (.identifier first) List.mem_cons_self

theorem separatedFront {mark : Char} {path : Path} {last : String} (qualified : path ≠ [])
    (proper : ∀ token ∈ separated mark (path ++ [last]), token.Proper) : path.startsName = true := by
  have starts := separatedProper (List.append_ne_nil_of_left_ne_nil qualified [last]) proper
  cases path with
  | nil => exact absurd rfl qualified
  | cons first rest => exact starts

theorem Resolves.fits {classes : ClassTable} {path : Path} {name : String} {args : List Stmt}
    {tree : Stmt} (resolved : Resolves classes path name args tree) (given : Stmt.AllFit .operand args)
    (proper : ∀ token ∈ separated '.' (path ++ [name]), token.Proper) : tree.Fits .operand := by
  cases resolved with
  | method qualified =>
    have receiver : Stmt.Fits .receiver (.path path) :=
      Stmt.fitsLeaf (by simp [Node.fits, separatedFront qualified proper]) rfl
    refine List.forall_mem_cons.mpr ⟨rfl, List.forall_mem_append.mpr ⟨receiver, ?_⟩⟩
    exact Stmt.allParts.mpr given
  | creation => exact Stmt.fitsList rfl given rfl
  | conversion => exact Stmt.fitsOver rfl (given _ (List.mem_singleton_self _)) rfl

def Level.Fits : (level : Level) → level.Tree → Prop
  | .list, trees | .arguments, trees => Stmt.AllFit .operand trees
  | .disjunction, tree | .conjunction, tree | .negation, tree | .comparison, tree | .sum, tree
  | .product, tree | .factor, tree | .call, tree => tree.Fits .operand

theorem Expression.fits {classes : ClassTable} {level : Level} {tokens : List Token}
    {tree : level.Tree} (derived : Expression classes level tokens tree)
    (proper : ∀ token ∈ tokens, token.Proper) : level.Fits tree := by
  induction derived with
  | either _ _ first second | both _ _ first second | compare _ _ _ first second =>
    obtain ⟨left, right⟩ := List.forall_mem_append.mp proper
    exact Stmt.fitsPair rfl (first left) (second (List.forall_mem_cons.mp right).2) rfl
  | sum additive _ _ first second =>
    obtain ⟨left, right⟩ := List.forall_mem_append.mp proper
    have operand := second (List.forall_mem_cons.mp right).2
    rcases additive with rfl | rfl <;> exact Stmt.fitsPair rfl (first left) operand rfl
  | product multiplicative _ _ first second =>
    obtain ⟨left, right⟩ := List.forall_mem_append.mp proper
    have operand := second (List.forall_mem_cons.mp right).2
    rcases multiplicative with rfl | rfl
    · exact Stmt.fitsPair rfl (first left) operand.multiplier rfl
    · exact Stmt.fitsPair rfl (first left) operand rfl
  | negate _ operand => exact Stmt.fitsOver rfl (operand (List.forall_mem_cons.mp proper).2) rfl
  | opposite _ operand =>
    have negative : Stmt.Fits .multiplier (.number (-1)) := Stmt.fitsLeaf rfl rfl
    exact Stmt.fitsPair rfl (operand (List.forall_mem_cons.mp proper).2) negative rfl
  | number value =>
    have positive : 0 ≤ value.toInt := proper (.number value) (List.mem_singleton_self _)
    exact Stmt.fitsLeaf (by simp [Node.fits, Slot.isOperand, positive]) rfl
  | string | yes | no | none => exact Stmt.fitsLeaf rfl rfl
  | path nonempty =>
    exact Stmt.fitsLeaf (by simp [Node.fits, Slot.isOperand, separatedProper nonempty proper]) rfl
  | call _ resolved given =>
    obtain ⟨dotted, rest⟩ := List.forall_mem_append.mp (List.forall_mem_append.mp proper).1
    exact resolved.fits (given (List.forall_mem_cons.mp rest).2) dotted
  | parenthesized _ inner =>
    exact inner (List.forall_mem_append.mp (List.forall_mem_cons.mp proper).2).1
  | single _ only => exact List.forall_mem_singleton.mpr (only proper)
  | more _ _ head rest =>
    obtain ⟨front, back⟩ := List.forall_mem_append.mp proper
    exact List.forall_mem_cons.mpr ⟨head front, rest (List.forall_mem_cons.mp back).2⟩
  | absent => exact fun _ member => absurd member List.not_mem_nil
  | ofConjunction _ only | ofNegation _ only | ofComparison _ only | ofSum _ only
  | ofProduct _ only | ofFactor _ only | ofCall _ only | given _ only => exact only proper

theorem Simple.fits {classes : ClassTable} {tokens : List Token} {tree : Stmt}
    (derived : Simple classes tokens tree) (proper : ∀ token ∈ tokens, token.Proper) :
    tree.Fits .member := by
  cases derived with
  | result given => exact Stmt.fitsOver rfl (given.fits (List.forall_mem_cons.mp proper).2) rfl
  | print given => exact Stmt.fitsList rfl (given.fits (List.forall_mem_cons.mp proper).2) rfl
  | assign given =>
    have rest := (List.forall_mem_cons.mp (List.forall_mem_cons.mp proper).2).2
    exact Stmt.fitsOver rfl (given.fits rest) rfl
  | setField qualified given =>
    obtain ⟨dotted, rest⟩ := List.forall_mem_append.mp proper
    have value := given.fits (List.forall_mem_cons.mp rest).2
    exact Stmt.fitsOver (by simp [Node.fits, separatedFront qualified dotted]) value rfl
  | call made => exact (made.fits proper).member made.formed.2

def Phrase.Fits : (phrase : Phrase) → phrase.Tree → Prop
  | .statement, tree => tree.Fits .member
  | .statements, trees => Stmt.AllFit .member trees
  | .suite, tree => tree.Fits .suite
  | .methods, declared => ∀ method ∈ declared, method.body.Fits .suite

theorem branchFits {condition yes : Stmt} {no : Option Stmt} (tested : condition.Fits .operand)
    (positive : yes.Fits .suite) (negative : ∀ tree, no = some tree → tree.Fits .suite) :
    (Stmt.branch condition yes no).Fits .member := by
  refine List.forall_mem_cons.mpr ⟨rfl, List.forall_mem_append.mpr ⟨?_, ?_⟩⟩
  · exact List.forall_mem_append.mpr ⟨tested, positive⟩
  · cases no with
    | none => exact fun _ member => absurd member List.not_mem_nil
    | some tree => exact negative tree rfl

theorem Derives.fits {phrase : Phrase} {before after : ClassTable} {tokens : List Token}
    {tree : phrase.Tree} (derived : Derives phrase before tokens tree after)
    (proper : ∀ token ∈ tokens, token.Proper) : phrase.Fits tree := by
  induction derived with
  | simple line => exact line.fits (List.forall_mem_append.mp proper).1
  | branch tested _ positive =>
    obtain ⟨front, body⟩ := List.forall_mem_append.mp proper
    have condition := tested.fits (List.forall_mem_cons.mp front).2
    exact branchFits condition (positive (List.forall_mem_cons.mp body).2) fun _ none => by cases none
  | branchElse tested _ _ positive negative =>
    obtain ⟨first, last⟩ := List.forall_mem_append.mp proper
    obtain ⟨front, body⟩ := List.forall_mem_append.mp first
    have condition := tested.fits (List.forall_mem_cons.mp front).2
    refine branchFits condition (positive (List.forall_mem_cons.mp body).2) ?_
    intro tree same
    cases same
    exact negative (List.forall_mem_cons.mp (List.forall_mem_cons.mp last).2).2
  | define => exact Stmt.fitsLeaf rfl rfl
  | finished | noMethods => exact fun _ member => absurd member List.not_mem_nil
  | next _ _ head rest =>
    obtain ⟨front, back⟩ := List.forall_mem_append.mp proper
    exact List.forall_mem_cons.mpr ⟨head front, rest back⟩
  | suite _ nonempty inside =>
    obtain ⟨front, -⟩ := List.forall_mem_append.mp proper
    have body := inside (List.forall_mem_cons.mp (List.forall_mem_cons.mp front).2).2
    exact Stmt.fitsList (by simp [Node.fits, nonempty]) body rfl
  | method _ _ inside rest =>
    obtain ⟨front, back⟩ := List.forall_mem_append.mp proper
    obtain ⟨-, body⟩ := List.forall_mem_append.mp front
    have suite := inside (List.forall_mem_cons.mp (List.forall_mem_cons.mp body).2).2
    exact List.forall_mem_cons.mpr ⟨suite, rest back⟩

theorem Entered.fits {table : ClassTable} {id : ClassId} {tokens : List Token} {cls : ClassDef}
    (entered : Entered table id tokens) (held : table.get? id = some cls)
    (proper : ∀ token ∈ tokens, token.Proper) : ∀ method ∈ cls.declared, method.body.Fits .suite := by
  cases entered with
  | definition _ _ declared _ _ found =>
    rw [found] at held
    cases held
    obtain ⟨front, -⟩ := List.forall_mem_append.mp proper
    obtain ⟨-, body⟩ := List.forall_mem_append.mp front
    have inside := (List.forall_mem_cons.mp (List.forall_mem_cons.mp body).2).2
    exact declared.fits (List.forall_mem_cons.mp inside).2

theorem parsesFit {tokens : List Token} {program : Program} (parses : Parses tokens program)
    (proper : ∀ token ∈ tokens, token.Proper) : ∀ node ∈ program.nodes, node.fits = true := by
  intro node member
  rcases Program.nodeCases member with ⟨tree, listed, inside⟩ | ⟨id, cls, held, method, declared, inside⟩
  · exact Derives.fits parses proper tree listed node inside
  · obtain ⟨part, within, entered⟩ :=
      parses.accounts.entered (Nat.zero_le id) (ClassTable.getKnown held)
    exact entered.fits held (fun token found => proper token (within.subset found)) method declared
      node inside

end Grammar

end Offside
