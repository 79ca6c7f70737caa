import Mathlib.Data.List.Forall2
import Offside.Proofs.Grammar.Entry

/-! The outline of a program: the bases in the headers of its classes, its calls of bare names and the
ends of its classes, in the order of the text. It can be read off the tokens, where it is about names,
and off the trees, where it is about places in the class table. -/
namespace Offside

namespace Grammar

inductive TextMark where
  | inherits (name base : String)
  | calls (name : String)
  | ends (name : String)
  deriving DecidableEq

/-- The outline of the tokens in front. `header` is the class whose header has been read and whose
indentation comes next; `opened` has an entry for each open indentation, with the class that it is
the body of. A name after `def` or after a point is not called by its own. -/
def outlineFrom : Option String → List (Option String) → List Token → List TextMark
  | _, opened, .keyword .classK :: .identifier name :: .char '(' :: .identifier base :: rest =>
    .inherits name base :: outlineFrom (some name) opened rest
  | _, opened, .keyword .classK :: .identifier name :: rest => outlineFrom (some name) opened rest
  | header, opened, .keyword .defK :: .identifier _ :: rest
  | header, opened, .char '.' :: .identifier _ :: rest => outlineFrom header opened rest
  | header, opened, .identifier name :: .char '(' :: rest =>
    .calls name :: outlineFrom header opened rest
  | header, opened, .indent :: rest => outlineFrom none (header :: opened) rest
  | header, some name :: opened, .dedent :: rest => .ends name :: outlineFrom header opened rest
  | header, none :: opened, .dedent :: rest => outlineFrom header opened rest
  | header, opened, _ :: rest => outlineFrom header opened rest
  | _, _, [] => []

def outlineText (tokens : List Token) : List TextMark := outlineFrom none [] tokens

end Grammar

inductive Site where
  | creation (cls : ClassId)
  | conversion
  | definition (cls : ClassId)
  deriving DecidableEq

namespace Stmt

mutual

def sites : Stmt → List Site
  | .path _ | .number _ | .string _ | .bool _ | .none => []
  | .assign _ value | .setField _ _ value | .negate value | .result value => value.sites
  | .arithmetic _ left right | .both left right | .either left right | .compare _ left right =>
    left.sites ++ right.sites
  | .block body => sitesAll body
  | .branch condition yes no => condition.sites ++ yes.sites ++ sitesElse no
  | .print args => sitesAll args
  | .call receiver _ args => receiver.sites ++ sitesAll args
  | .create cls args => .creation cls :: sitesAll args
  | .stringify value => .conversion :: value.sites
  | .define cls => [.definition cls]

def sitesAll : List Stmt → List Site
  | [] => []
  | first :: rest => first.sites ++ sitesAll rest

def sitesElse : Option Stmt → List Site
  | .some no => no.sites
  | .none => []

end

end Stmt

inductive TreeMark where
  | inherits (child parent : ClassId)
  | creates (cls : ClassId)
  | converts
  | ends (cls : ClassId)
  deriving DecidableEq

def TreeMark.ended? : TreeMark → Option ClassId
  | .ends cls => some cls
  | _ => none

def Site.marks (inner : ClassId → List TreeMark) : Site → List TreeMark
  | .creation cls => [.creates cls]
  | .conversion => [.converts]
  | .definition cls => inner cls

def Method.sites (declared : List Method) : List Site := declared.flatMap (·.body.sites)

namespace ClassTable

def outlineOf (table : ClassTable) (id : ClassId) : List TreeMark :=
  match table.get? id with
  | none => []
  | some cls =>
    -- a class that is defined inside another one comes before it in every table that is built
    cls.parent.toList.map (.inherits id) ++
      (Method.sites cls.declared).flatMap
        (Site.marks fun inner => if inner < id then table.outlineOf inner else []) ++
      [.ends id]
termination_by id

def marks (table : ClassTable) (sites : List Site) : List TreeMark :=
  sites.flatMap (Site.marks table.outlineOf)

@[simp] theorem marksCons (table : ClassTable) (site : Site) (sites : List Site) :
    table.marks (site :: sites) = site.marks table.outlineOf ++ table.marks sites := rfl

@[simp] theorem marksAppend (table : ClassTable) (first second : List Site) :
    table.marks (first ++ second) = table.marks first ++ table.marks second :=
  List.flatMap_append

end ClassTable

def Program.outline (program : Program) : List TreeMark :=
  program.classes.marks (Stmt.sitesAll program.statements)

namespace Grammar
open ClassTable

def Level.sites : (level : Level) → level.Tree → List Site
  | .list, trees | .arguments, trees => Stmt.sitesAll trees
  | .disjunction, tree | .conjunction, tree | .negation, tree | .comparison, tree | .sum, tree
  | .product, tree | .factor, tree | .call, tree => tree.sites

def Phrase.sites : (phrase : Phrase) → phrase.Tree → List Site
  | .statement, tree | .suite, tree => tree.sites
  | .statements, trees => Stmt.sitesAll trees
  | .methods, declared => Method.sites declared

section Order

/- Sites in the order in which they use and define classes. `count` classes are known at the first of
them; a definition may hold others, so it may be of a later class than the next one. -/
inductive Ordered : Nat → List Site → Nat → Prop where
  | nil {count : Nat} : Ordered count [] count
  | creation {count last : Nat} {cls : ClassId} {rest : List Site} (known : cls < count)
      (more : Ordered count rest last) : Ordered count (.creation cls :: rest) last
  | conversion {count last : Nat} {rest : List Site} (more : Ordered count rest last) :
      Ordered count (.conversion :: rest) last
  | definition {count last : Nat} {cls : ClassId} {rest : List Site} (later : count ≤ cls)
      (more : Ordered (cls + 1) rest last) : Ordered count (.definition cls :: rest) last

theorem Ordered.append {count between last : Nat} {first second : List Site}
    (left : Ordered count first between) (right : Ordered between second last) :
    Ordered count (first ++ second) last := by
  induction left with
  | nil => exact right
  | creation known _ ih => exact .creation known (ih right)
  | conversion _ ih => exact .conversion (ih right)
  | definition later _ ih => exact .definition later (ih right)

theorem Expression.ordered {classes : ClassTable} {level : Level} {tokens : List Token}
    {tree : level.Tree} (derived : Expression classes level tokens tree) :
    Ordered classes.classes.size (level.sites tree) classes.classes.size := by
  induction derived with
  | either _ _ first second | both _ _ first second | compare _ _ _ first second
  | sum _ _ _ first second | product _ _ _ first second | more _ _ first second =>
    exact first.append second
  | number | string | yes | no | none | path | absent => exact .nil
  | opposite _ operand => exact operand.append .nil
  | single _ only => exact only.append .nil
  | call _ resolved given =>
    cases resolved with
    | method qualified => exact given
    | creation declared => exact .creation (findKnown declared) given
    | conversion free =>
      simp only [Level.sites, Stmt.sitesAll, List.append_nil] at given
      exact .conversion given
  | negate _ only | parenthesized _ only | ofCall _ only | given _ only | ofConjunction _ only
  | ofNegation _ only | ofComparison _ only | ofSum _ only | ofProduct _ only
  | ofFactor _ only => exact only

theorem Simple.ordered {classes : ClassTable} {tokens : List Token} {tree : Stmt}
    (derived : Simple classes tokens tree) :
    Ordered classes.classes.size tree.sites classes.classes.size := by
  cases derived with
  | result given | print given | assign given | setField _ given => exact given.ordered
  | call made => exact made.ordered

theorem Derives.ordered {phrase : Phrase} {before after : ClassTable} {tokens : List Token}
    {tree : phrase.Tree} (derived : Derives phrase before tokens tree after) :
    Ordered before.classes.size (phrase.sites tree) after.classes.size := by
  induction derived with
  | simple line => exact line.ordered
  | finished | noMethods => exact .nil
  | branch tested _ positive => exact (tested.ordered.append positive).append .nil
  | branchElse tested _ _ positive negative =>
    exact (tested.ordered.append positive).append negative
  | define _ declared =>
    rw [ClassTable.declare, Array.size_push]
    exact .definition declared.accounts.grown.size .nil
  | next _ _ head rest | method _ _ head rest => exact head.append rest
  | suite _ _ inside => exact inside

theorem Ordered.defined {count last : Nat} {sites : List Site} (ordered : Ordered count sites last) :
    count ≤ last ∧ ∀ cls, .definition cls ∈ sites → count ≤ cls ∧ cls < last := by
  induction ordered with
  | nil => exact ⟨Nat.le_refl _, fun _ member => absurd member List.not_mem_nil⟩
  | creation _ _ ih | conversion _ ih =>
    refine ⟨ih.1, fun cls member => ih.2 cls ?_⟩
    simpa using member
  | @definition count last cls rest later _ ih =>
    refine ⟨Nat.le_trans later (Nat.le_trans (Nat.le_succ cls) ih.1), fun other member => ?_⟩
    rcases List.mem_cons.mp member with same | inside
    · cases same
      exact ⟨later, ih.1⟩
    · have bounds := ih.2 other inside
      exact ⟨Nat.le_trans later (Nat.le_trans (Nat.le_succ cls) bounds.1), bounds.2⟩

/- Marks in the order in which classes are known: only known classes are named, and the class that
ends is the next one of the table. -/
inductive Timely : Nat → List TreeMark → Nat → Prop where
  | nil {count : Nat} : Timely count [] count
  | inherits {count last : Nat} {child parent : ClassId} {rest : List TreeMark}
      (known : parent < count) (more : Timely count rest last) :
      Timely count (.inherits child parent :: rest) last
  | creates {count last : Nat} {cls : ClassId} {rest : List TreeMark} (known : cls < count)
      (more : Timely count rest last) : Timely count (.creates cls :: rest) last
  | converts {count last : Nat} {rest : List TreeMark} (more : Timely count rest last) :
      Timely count (.converts :: rest) last
  | ends {count last : Nat} {rest : List TreeMark} (more : Timely (count + 1) rest last) :
      Timely count (.ends count :: rest) last

theorem Timely.append {count between last : Nat} {first second : List TreeMark}
    (left : Timely count first between) (right : Timely between second last) :
    Timely count (first ++ second) last := by
  induction left with
  | nil => exact right
  | inherits known _ ih => exact .inherits known (ih right)
  | creates known _ ih => exact .creates known (ih right)
  | converts _ ih => exact .converts (ih right)
  | ends _ ih => exact .ends (ih right)

theorem outlineHeld {table : ClassTable} {id : ClassId} {cls : ClassDef} {count : Nat}
    (held : table.get? id = some cls) (ordered : Ordered count (Method.sites cls.declared) id) :
    table.outlineOf id = cls.parent.toList.map (.inherits id) ++
      table.marks (Method.sites cls.declared) ++ [.ends id] := by
  have inside : ∀ site ∈ Method.sites cls.declared, Site.marks (fun inner =>
      if inner < id then table.outlineOf inner else []) site = site.marks table.outlineOf := by
    intro site member
    cases site with
    | definition cls => exact if_pos (ordered.defined.2 cls member).2
    | _ => rfl
  rw [outlineOf, held, marks, ← List.flatMap_congr inside]

theorem Ordered.timely {count : Nat} {sites : List Site} (ordered : Ordered count sites count)
    (table : ClassTable) : Timely count (table.marks sites) count := by
  have without : ∀ cls, .definition cls ∉ sites := fun cls member =>
    absurd (ordered.defined.2 cls member).2 (Nat.not_lt.mpr (ordered.defined.2 cls member).1)
  induction sites with
  | nil => exact .nil
  | cons site rest ih =>
    have others : ∀ cls, .definition cls ∉ rest := fun cls member =>
      without cls (List.mem_cons_of_mem site member)
    cases ordered with
    | creation known more => exact .creates known (ih more others)
    | conversion more => exact .converts (ih more others)
    | definition => exact absurd List.mem_cons_self (without _)

theorem Base.timely {classes : ClassTable} {tokens : List Token} {parent : Option ClassId}
    (base : Base classes tokens parent) (child : ClassId) :
    Timely classes.classes.size (parent.toList.map (.inherits child)) classes.classes.size := by
  cases base with
  | absent => exact .nil
  | named declared => exact .inherits (findKnown declared) .nil

theorem newClassHeld {table after : ClassTable} {name : String} {parent : Option ClassId}
    {methods : List Method} (grown : (after.declare name parent methods).Extends table) :
    table.get? after.classes.size = some (after.newClass name parent methods) := by
  rw [grown.get (by simp [ClassTable.declare]), getDeclare, if_pos rfl]

theorem marksDefinition {table after : ClassTable} {name : String} {parent : Option ClassId}
    {methods : List Method} {count : Nat}
    (grown : (after.declare name parent methods).Extends table)
    (ordered : Ordered count (Method.sites methods) after.classes.size) :
    table.marks (Stmt.define after.classes.size).sites =
      parent.toList.map (.inherits after.classes.size) ++ table.marks (Method.sites methods) ++
        [.ends after.classes.size] :=
  (List.append_nil _).trans (outlineHeld (newClassHeld grown) ordered)

theorem Derives.timely {phrase : Phrase} {before after table : ClassTable} {tokens : List Token}
    {tree : phrase.Tree} (derived : Derives phrase before tokens tree after)
    (grown : after.Extends table) :
    Timely before.classes.size (table.marks (phrase.sites tree)) after.classes.size := by
  induction derived with
  | simple line => exact line.ordered.timely table
  | finished | noMethods => exact .nil
  | branch tested _ positive =>
    have marks := (tested.ordered.timely table).append (positive grown)
    simpa [Phrase.sites, Level.sites, Stmt.sites, Stmt.sitesElse] using marks
  | branchElse tested _ negated positive negative =>
    have marks := ((tested.ordered.timely table).append
      (positive (negated.accounts.grown.trans grown))).append (negative grown)
    simpa [Phrase.sites, Level.sites, Stmt.sites, Stmt.sitesElse] using marks
  | @define before after _ _ _ _ methods inherits declared _ _ inside =>
    have body : Timely before.classes.size (table.marks (Method.sites methods))
        after.classes.size := inside ((Extends.declare _ _ _ _).trans grown)
    rw [ClassTable.declare, Array.size_push, Phrase.sites, marksDefinition grown declared.ordered]
    exact ((inherits.timely after.classes.size).append body).append (.ends .nil)
  | next _ others head rest | method _ others head rest =>
    have marks := (head (others.accounts.grown.trans grown)).append (rest grown)
    simpa [Phrase.sites, Stmt.sitesAll, Method.sites] using marks
  | suite _ _ inside => exact inside grown

theorem Entered.timely {table : ClassTable} {id : ClassId} {tokens : List Token}
    (entered : Entered table id tokens) :
    ∃ start front, Timely start front id ∧ table.outlineOf id = front ++ [.ends id] := by
  cases entered with
  | @definition start _ _ _ _ methods early inherits declared _ _ held =>
    have known := getKnown held
    have size : (table.upTo id).classes.size = id := by
      rw [sizeUpTo]
      exact Nat.min_eq_left (Nat.le_of_lt known)
    have ordered := declared.ordered
    have grown : (table.upTo id).Extends table := by rw [Extends, size]
    have body : Timely _ (table.marks (Method.sites methods)) _ := declared.timely grown
    rw [size] at ordered body
    exact ⟨_, _, (inherits.timely id).append body, outlineHeld held ordered⟩

namespace Timely

variable {count last : Nat} {marks : List TreeMark}

theorem ended (timely : Timely count marks last) :
    count ≤ last ∧ marks.filterMap TreeMark.ended? = List.range' count (last - count) := by
  induction timely with
  | nil => simp
  | inherits _ _ ih | creates _ _ ih | converts _ ih => exact ih
  | @ends count last rest _ ih =>
    refine ⟨Nat.le_of_succ_le ih.1, ?_⟩
    have more : last - count = last - (count + 1) + 1 := by omega
    rw [List.filterMap_cons, ih.2, more, List.range'_succ]
    rfl

theorem known (timely : Timely count marks last) {cls : ClassId}
    (named : .creates cls ∈ marks) : cls < last := by
  induction timely with
  | nil => cases named
  | inherits _ _ ih | converts _ ih | ends _ ih => exact ih (by simpa using named)
  | creates known more ih =>
    rcases List.mem_cons.mp named with same | inside
    · cases same
      exact Nat.lt_of_lt_of_le known more.ended.1
    · exact ih inside

theorem behind {front back : List TreeMark} (timely : Timely count (front ++ back) last) :
    ∃ between, Timely between back last ∧ ∀ cls < between, cls < count ∨ .ends cls ∈ front := by
  induction front generalizing count with
  | nil => exact ⟨count, timely, fun _ known => .inl known⟩
  | cons mark rest ih =>
    cases timely with
    | inherits _ more | creates _ more | converts more =>
      obtain ⟨between, timely, known⟩ := ih more
      refine ⟨between, timely, fun cls below => (known cls below).imp_right ?_⟩
      exact List.mem_cons_of_mem _
    | ends more =>
      obtain ⟨between, timely, known⟩ := ih more
      refine ⟨between, timely, fun cls below => ?_⟩
      rcases known cls below with early | inside
      · rcases Nat.lt_succ_iff_lt_or_eq.mp early with earlier | rfl
        · exact .inl earlier
        · exact .inr List.mem_cons_self
      · exact .inr (List.mem_cons_of_mem _ inside)

theorem named {front back : List TreeMark} {mark : TreeMark} {cls : ClassId}
    (timely : Timely 0 (front ++ mark :: back) last)
    (names : mark = .creates cls ∨ ∃ child, mark = .inherits child cls) : .ends cls ∈ front := by
  obtain ⟨between, rest, known⟩ := timely.behind
  have below : cls < between := by
    rcases names with rfl | ⟨child, rfl⟩ <;> cases rest <;> assumption
  exact (known cls below).resolve_left (Nat.not_lt_zero cls)

end Timely

end Order

section Text

variable {header : Option String} {opened : List (Option String)} {rest : List Token}

def isPlain : Token → Bool
  | .keyword .classK | .keyword .defK | .char '.' | .identifier _ | .indent | .dedent => false
  | _ => true

theorem outlinePlain {token : Token} (plain : isPlain token = true) :
    outlineFrom header opened (token :: rest) = outlineFrom header opened rest := by
  rw [outlineFrom] <;> (intros; subst_vars; simp [isPlain] at plain)

def Uncalled (rest : List Token) : Prop := rest.head? ≠ some (.char '(')

theorem outlineName (name : String) (uncalled : Uncalled rest) :
    outlineFrom header opened (.identifier name :: rest) = outlineFrom header opened rest := by
  rw [outlineFrom] <;> simp
  rintro other more - rfl
  exact uncalled rfl

theorem outlineCalled (name : String) :
    outlineFrom header opened (.identifier name :: .char '(' :: rest) =
      .calls name :: outlineFrom header opened rest := by
  rw [outlineFrom]

theorem outlineMember (name : String) :
    outlineFrom header opened (.char '.' :: .identifier name :: rest) =
      outlineFrom header opened rest := by
  rw [outlineFrom]

theorem outlineMethod (name : String) :
    outlineFrom header opened (.keyword .defK :: .identifier name :: rest) =
      outlineFrom header opened rest := by
  rw [outlineFrom]

theorem outlinePoints (names : List String) :
    outlineFrom header opened
        (names.flatMap (fun name => [.char '.', .identifier name]) ++ rest) =
      outlineFrom header opened rest := by
  induction names with
  | nil => rfl
  | cons name others ih =>
    rw [List.flatMap_cons, List.append_assoc, ← ih]
    exact outlineMember name

/- The first of the names stands alone, so it must not be called; the others stand behind points. -/
theorem outlineDotted (first : String) (others : List String)
    (uncalled : others ≠ [] ∨ Uncalled rest) :
    outlineFrom header opened (separated '.' (first :: others) ++ rest) =
      outlineFrom header opened rest := by
  have next : Uncalled (others.flatMap (fun name => [.char '.', .identifier name]) ++ rest) := by
    cases others with
    | nil => exact uncalled.resolve_left (absurd rfl)
    | cons => simp [Uncalled]
  exact (outlineName first next).trans (outlinePoints others)

theorem outlineQualified {path : Path} (qualified : path ≠ []) (last : String) :
    outlineFrom header opened (separated '.' (path ++ [last]) ++ rest) =
      outlineFrom header opened rest := by
  cases path with
  | nil => exact absurd rfl qualified
  | cons first others => exact outlineDotted first (others ++ [last]) (.inl (by simp))

theorem outlineParameters (params : List String) (uncalled : Uncalled rest) :
    outlineFrom header opened (separated ',' params ++ rest) = outlineFrom header opened rest := by
  have commas : ∀ names : List String,
      Uncalled (names.flatMap (fun name => [.char ',', .identifier name]) ++ rest) ∧
      outlineFrom header opened
          (names.flatMap (fun name => [.char ',', .identifier name]) ++ rest) =
        outlineFrom header opened rest := by
    intro names
    induction names with
    | nil => exact ⟨uncalled, rfl⟩
    | cons name others ih =>
      refine ⟨by simp [Uncalled], ?_⟩
      rw [List.flatMap_cons, List.append_assoc]
      exact (outlinePlain rfl).trans ((outlineName name ih.1).trans ih.2)
  cases params with
  | nil => rfl
  | cons first others => exact (outlineName first (commas others).1).trans (commas others).2

theorem outlineSignature (name : String) (params : List String) :
    outlineFrom header opened (.keyword .defK :: .identifier name :: .char '(' ::
        (separated ',' params ++ .char ')' :: .char ':' :: rest)) =
      outlineFrom header opened rest := by
  have uncalled : Uncalled (.char ')' :: .char ':' :: rest) := by simp [Uncalled]
  calc outlineFrom header opened (.keyword .defK :: .identifier name :: .char '(' ::
        (separated ',' params ++ .char ')' :: .char ':' :: rest))
    _ = outlineFrom header opened
          (.char '(' :: (separated ',' params ++ .char ')' :: .char ':' :: rest)) :=
        outlineMethod name
    _ = outlineFrom header opened (separated ',' params ++ .char ')' :: .char ':' :: rest) :=
        outlinePlain rfl
    _ = outlineFrom header opened (.char ')' :: .char ':' :: rest) :=
        outlineParameters params uncalled
    _ = outlineFrom header opened rest := (outlinePlain rfl).trans (outlinePlain rfl)

inductive Names (table : ClassTable) : TextMark → TreeMark → Prop where
  | inherits {name base : String} {child parent : ClassId} (own : table.nameOf child = name)
      (above : table.nameOf parent = base) :
      Names table (.inherits name base) (.inherits child parent)
  | creates {name : String} {cls : ClassId} (own : table.nameOf cls = name) :
      Names table (.calls name) (.creates cls)
  | converts : Names table (.calls "str") .converts
  | ends {name : String} {cls : ClassId} (own : table.nameOf cls = name) :
      Names table (.ends name) (.ends cls)

def Outlined (table : ClassTable) (allowed : List Token → Prop) (tokens : List Token)
    (marks : List TreeMark) : Prop :=
  ∃ read, (∀ opened rest, allowed rest →
      outlineFrom none opened (tokens ++ rest) = read ++ outlineFrom none opened rest) ∧
    List.Forall₂ (Names table) read marks

def Anywhere (_ : List Token) : Prop := True

namespace Outlined

variable {table : ClassTable} {allowed permitted : List Token → Prop} {left right : List Token}
  {a b : List TreeMark} {first second : List Site}

theorem silent (skipped : ∀ opened rest, allowed rest →
    outlineFrom none opened (left ++ rest) = outlineFrom none opened rest) :
    Outlined table allowed left [] :=
  ⟨[], skipped, .nil⟩

theorem weaken (outlined : Outlined table Anywhere left a) : Outlined table allowed left a := by
  obtain ⟨read, reads, named⟩ := outlined
  exact ⟨read, fun opened rest _ => reads opened rest trivial, named⟩

theorem append (first : Outlined table allowed left a) (second : Outlined table permitted right b)
    (follows : ∀ rest, permitted rest → allowed (right ++ rest)) :
    Outlined table permitted (left ++ right) (a ++ b) := by
  obtain ⟨readFirst, readsFirst, firstNamed⟩ := first
  obtain ⟨readSecond, readsSecond, secondNamed⟩ := second
  refine ⟨readFirst ++ readSecond, fun opened rest fits => ?_, List.rel_append firstNamed secondNamed⟩
  rw [List.append_assoc, readsFirst opened _ (follows rest fits), readsSecond opened rest fits,
    List.append_assoc]

theorem marked {token : Token} (plain : isPlain token = true)
    (behind : Outlined table allowed right b) : Outlined table allowed (token :: right) b := by
  obtain ⟨read, reads, named⟩ := behind
  exact ⟨read, fun opened rest fits => (outlinePlain plain).trans (reads opened rest fits), named⟩

theorem between {token : Token} (front : Outlined table Uncalled left (table.marks first))
    (back : Outlined table allowed right (table.marks second)) (plain : isPlain token = true)
    (other : token ≠ .char '(') :
    Outlined table allowed (left ++ token :: right) (table.marks (first ++ second)) := by
  rw [marksAppend]
  refine front.append (back.marked plain) fun rest _ => ?_
  simpa [Uncalled] using other

theorem ended {token : Token} (front : Outlined table Uncalled left (table.marks first))
    (plain : isPlain token = true) (other : token ≠ .char '(') :
    Outlined table Anywhere (left ++ [token]) (table.marks first) := by
  have nothing : Outlined table Anywhere [] (table.marks []) := silent fun _ _ _ => rfl
  rw [← List.append_nil first]
  exact front.between nothing plain other

theorem indented (inside : Outlined table Anywhere left a) :
    Outlined table Anywhere (.newline :: .indent :: left ++ [.dedent]) a := by
  obtain ⟨read, reads, named⟩ := inside
  refine ⟨read, fun opened rest _ => ?_, named⟩
  have opening : outlineFrom none opened (.indent :: (left ++ .dedent :: rest)) =
      outlineFrom none (none :: opened) (left ++ .dedent :: rest) := by rw [outlineFrom]
  have closing : outlineFrom none (none :: opened) (.dedent :: rest) =
      outlineFrom none opened rest := by rw [outlineFrom]
  have all := reads (none :: opened) (.dedent :: rest) trivial
  rw [← opening, closing, ← outlinePlain (show isPlain .newline = true from rfl)] at all
  simpa using all

end Outlined

theorem Resolves.outlined {classes table : ClassTable} {path : Path} {name : String}
    {tokens : List Token} {args : List Stmt} {tree : Stmt}
    (resolved : Resolves classes path name args tree) (grown : classes.Extends table)
    (given : Outlined table Uncalled tokens (table.marks (Stmt.sitesAll args))) :
    Outlined table Anywhere (separated '.' (path ++ [name]) ++ .char '(' :: tokens ++ [.char ')'])
      (table.marks tree.sites) := by
  have closed : Outlined table Anywhere (tokens ++ [.char ')'])
    (table.marks (Stmt.sitesAll args)) := given.ended rfl (by simp)
  rw [List.append_assoc, List.cons_append]
  -- a name in front of the parenthesis is called when no point is before it
  have bare : ∀ {mark : TreeMark}, Names table (.calls name) mark →
      Outlined table Anywhere (separated '.' ([] ++ [name]) ++ .char '(' :: (tokens ++ [.char ')']))
        (mark :: table.marks (Stmt.sitesAll args)) := by
    intro mark called
    obtain ⟨read, reads, named⟩ := closed
    refine ⟨.calls name :: read, fun opened rest fits => ?_, .cons called named⟩
    rw [List.cons_append, ← reads opened rest fits]
    exact outlineCalled name
  cases resolved with
  | method qualified =>
    have walked : Outlined table Anywhere (separated '.' (path ++ [name])) [] :=
      .silent fun opened rest _ => outlineQualified qualified name
    exact walked.append (closed.marked rfl) fun _ _ => trivial
  | creation declared =>
    refine bare (.creates ?_)
    rw [nameOfGet (grown.get (findKnown declared)), ClassTable.findNamed declared]
  | conversion free =>
    have converted := bare .converts
    simpa [Stmt.sites, Stmt.sitesAll, Site.marks] using converted

theorem Expression.outlined {classes table : ClassTable} {level : Level} {tokens : List Token}
    {tree : level.Tree} (derived : Expression classes level tokens tree)
    (grown : classes.Extends table) :
    Outlined table Uncalled tokens (table.marks (level.sites tree)) := by
  have operator : ∀ op, isPlain (operatorToken op) = true ∧ operatorToken op ≠ .char '(' := by
    intro op
    cases op <;> exact ⟨rfl, by simp [operatorToken]⟩
  induction derived with
  | either _ _ first second | both _ _ first second | more _ _ first second =>
    exact first.between second rfl (by simp)
  | compare relation _ _ first second =>
    exact first.between second (by cases relation <;> rfl)
      (by cases relation <;> simp [relationToken])
  | @sum _ _ _ _ op _ _ _ first second | @product _ _ _ _ op _ _ _ first second =>
    exact first.between second (operator op).1 (operator op).2
  | parenthesized _ inner => exact ((inner.ended rfl (by simp)).marked rfl).weaken
  | opposite _ operand =>
    have marks := operand.marked (show isPlain (.char '-') = true from rfl)
    simpa [Level.sites, Stmt.sites] using marks
  | number | string | yes | no | none => exact .silent fun opened rest _ => outlinePlain rfl
  | @path names nonempty =>
    refine .silent fun opened rest uncalled => ?_
    cases names with
    | nil => exact absurd rfl nonempty
    | cons first others => exact outlineDotted first others (.inr uncalled)
  | call _ resolved given => exact (resolved.outlined grown given).weaken
  | single _ only => simpa [Level.sites, Stmt.sitesAll] using only
  | absent => exact .silent fun _ _ _ => rfl
  | negate _ only => exact only.marked rfl
  | ofCall _ only | given _ only | ofConjunction _ only
  | ofNegation _ only | ofComparison _ only | ofSum _ only | ofProduct _ only
  | ofFactor _ only => exact only

theorem Simple.outlined {classes table : ClassTable} {tokens : List Token} {tree : Stmt}
    (derived : Simple classes tokens tree) (grown : classes.Extends table) :
    Outlined table Anywhere (tokens ++ [.newline]) (table.marks tree.sites) := by
  refine Outlined.ended ?_ rfl (by simp)
  cases derived with
  | result given | print given => exact (given.outlined grown).marked rfl
  | @assign name _ _ given =>
    have target : Outlined table Uncalled [.identifier name] (table.marks []) :=
      .silent fun opened rest uncalled => outlineName name uncalled
    exact target.between (given.outlined grown) rfl (by simp)
  | @setField path field _ _ qualified given =>
    have target : Outlined table Uncalled (separated '.' (path ++ [field])) (table.marks []) :=
      .silent fun opened rest _ => outlineQualified qualified field
    exact target.between (given.outlined grown) rfl (by simp)
  | call made => exact made.outlined grown

theorem outlineHeader {classes table : ClassTable} {base : List Token} {parent : Option ClassId}
    (inherits : Base classes base parent) (grown : classes.Extends table) {name : String}
    {id : ClassId} (own : table.nameOf id = name) :
    ∃ read, List.Forall₂ (Names table) read (parent.toList.map (.inherits id)) ∧
      ∀ opened rest, outlineFrom none opened (.keyword .classK :: .identifier name :: base ++
          .char ':' :: .newline :: .indent :: rest) =
        read ++ outlineFrom none (some name :: opened) rest := by
  cases inherits with
  | absent =>
    refine ⟨[], .nil, fun opened rest => ?_⟩
    simp [outlineFrom]
  | @named base parent declared =>
    have above : table.nameOf parent = base := by
      rw [nameOfGet (grown.get (findKnown declared)), ClassTable.findNamed declared]
    refine ⟨[.inherits name base], .cons (.inherits own above) .nil, fun opened rest => ?_⟩
    simp [outlineFrom]

theorem Outlined.tested {classes table : ClassTable} {test body : List Token} {condition : Stmt}
    {sites : List Site} (inside : Outlined table Anywhere body (table.marks sites))
    (derived : Expression classes .disjunction test condition) (grown : classes.Extends table) :
    Outlined table Anywhere (.keyword .ifK :: test ++ .char ':' :: body)
      (table.marks (condition.sites ++ sites)) := by
  have front : Outlined table Uncalled test (table.marks condition.sites) := derived.outlined grown
  exact (front.between inside rfl (by simp)).marked rfl

theorem Outlined.definition {classes table : ClassTable} {base body : List Token}
    {parent : Option ClassId} {name : String} {id : ClassId} {marks : List TreeMark}
    (inside : Outlined table Anywhere body marks) (inherits : Base classes base parent)
    (grown : classes.Extends table) (own : table.nameOf id = name) :
    Outlined table Anywhere (definitionTokens name base body)
      (parent.toList.map (.inherits id) ++ marks ++ [.ends id]) := by
  obtain ⟨head, headNamed, opening⟩ := outlineHeader inherits grown own
  obtain ⟨read, reads, named⟩ := inside
  have all := List.rel_append (List.rel_append headNamed named) (.cons (.ends own) .nil)
  refine ⟨head ++ read ++ [.ends name], fun opened rest _ => ?_, all⟩
  have closing : outlineFrom none (some name :: opened) (.dedent :: rest) =
      .ends name :: outlineFrom none opened rest := by rw [outlineFrom]
  have whole := opening opened (body ++ .dedent :: rest)
  rw [reads (some name :: opened) (.dedent :: rest) trivial, closing] at whole
  simpa [definitionTokens] using whole

theorem Derives.outlined {phrase : Phrase} {before after table : ClassTable} {tokens : List Token}
    {tree : phrase.Tree} (derived : Derives phrase before tokens tree after)
    (grown : after.Extends table) :
    Outlined table Anywhere tokens (table.marks (phrase.sites tree)) := by
  induction derived with
  | simple line => exact line.outlined grown
  | finished | noMethods => exact .silent fun _ _ _ => rfl
  | branch tested positives positive =>
    have marks := (positive grown).tested tested (positives.accounts.grown.trans grown)
    simpa [Phrase.sites, Level.sites, Stmt.sites, Stmt.sitesElse] using marks
  | @branchElse _ _ _ _ _ other _ _ _ tested positives negatives positive negative =>
    have late := negatives.accounts.grown.trans grown
    have front := (positive late).tested tested (positives.accounts.grown.trans late)
    have back : Outlined table Anywhere (.keyword .elseK :: .char ':' :: other) _ :=
      ((negative grown).marked rfl).marked rfl
    have marks := front.append back fun _ _ => trivial
    simpa [Phrase.sites, Level.sites, Stmt.sites, Stmt.sitesElse] using marks
  | @define before after name base body parent methods inherits declared _ _ inside =>
    have late := (Extends.declare _ _ _ _).trans grown
    have own : table.nameOf after.classes.size = name := by rw [nameOf, newClassHeld grown]; rfl
    rw [Phrase.sites, marksDefinition grown declared.ordered]
    exact (inside late).definition inherits (declared.accounts.grown.trans late) own
  | next _ others head rest =>
    have marks := (head (others.accounts.grown.trans grown)).append (rest grown) fun _ _ => trivial
    simpa [Phrase.sites, Stmt.sitesAll] using marks
  | suite _ _ inside => exact (inside grown).indented
  | @method _ _ _ name params body others _ _ _ derivedRest head rest =>
    have signature : Outlined table Anywhere (.keyword .defK :: .identifier name :: .char '(' ::
        separated ',' params ++ [.char ')', .char ':']) [] := by
      refine .silent fun opened rest _ => ?_
      simpa using outlineSignature name params
    have inside := (head (derivedRest.accounts.grown.trans grown)).append (rest grown)
      fun _ _ => trivial
    have marks := signature.append inside fun _ _ => trivial
    simpa [Phrase.sites, Method.sites] using marks

theorem parsesOutline {tokens : List Token} {program : Program} (parses : Parses tokens program) :
    List.Forall₂ (Names program.classes) (outlineText tokens) program.outline := by
  obtain ⟨read, reads, named⟩ := Derives.outlined parses (Extends.refl program.classes)
  have whole := reads [] [] trivial
  rw [List.append_nil] at whole
  have same : outlineText tokens = read := whole.trans (List.append_nil read)
  rw [same]
  exact named

end Text

end Grammar

end Offside
