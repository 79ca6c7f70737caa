import Offside.Proofs.Execution.Relocation

/-! Printing. The arguments are evaluated and rendered one after another, each rendered before the next is
evaluated, and what this prints comes first. The line is written when all texts are there, so an
argument that fails keeps all of it back. To render an argument twice is to render it once, also where
the objects lie at other addresses, as long as no text tells an address. -/
namespace Offside

section
variable (classes : ClassTable) (dispatch : Dispatch)

def showing (arg : Stmt) : Exec String := do
  let value ← arg.exec classes dispatch
  dispatch.display value

/-- Arguments that are shown one after another: what each of them prints on the way, and their texts. -/
inductive Rendered : List Stmt → State → List (List UInt8) → List String → State → Prop where
  | none {state : State} : Rendered [] state [] [] state
  | next {arg : Stmt} {args : List Stmt} {state between after : State} {output : List UInt8}
      {outputs : List (List UInt8)} {text : String} {texts : List String}
      (shown : showing classes dispatch arg state = .done text between)
      (printed : between.sink.bytes = state.sink.bytes ++ output)
      (rest : Rendered args between outputs texts after) :
      Rendered (arg :: args) state (output :: outputs) (text :: texts) after

inductive Unrendered : List Stmt → State → List (List UInt8) → RuntimeError → State → Prop where
  | here {arg : Stmt} {args : List Stmt} {state after : State} {output : List UInt8}
      {error : RuntimeError} (failed : showing classes dispatch arg state = .failed error after)
      (printed : after.sink.bytes = state.sink.bytes ++ output) :
      Unrendered (arg :: args) state [output] error after
  | later {arg : Stmt} {args : List Stmt} {state between after : State} {output : List UInt8}
      {outputs : List (List UInt8)} {text : String} {error : RuntimeError}
      (shown : showing classes dispatch arg state = .done text between)
      (printed : between.sink.bytes = state.sink.bytes ++ output)
      (rest : Unrendered args between outputs error after) :
      Unrendered (arg :: args) state (output :: outputs) error after

theorem textsShowing (arg : Stmt) (args : List Stmt) :
    execTexts classes dispatch (arg :: args) = (do
      let text ← showing classes dispatch arg
      let texts ← execTexts classes dispatch args
      pure (text :: texts)) := by
  rw [execTexts, showing, bind_assoc]

end

section
variable (classes : ClassTable) (depth : Nat)

theorem displayString (text : String) :
    (Dispatch.within classes depth).display (.string text) = pure text := by
  cases depth <;> rfl

theorem showingWrapped (arg : Stmt) :
    showing classes (.within classes depth) (.stringify arg) =
      showing classes (.within classes depth) arg := by
  rw [showing, Stmt.exec]
  simp only [bind_assoc, pure_bind, displayString, bind_pure]
  rfl

theorem textsWrapped (args : List Stmt) :
    execTexts classes (.within classes depth) (args.map .stringify) =
      execTexts classes (.within classes depth) args := by
  induction args with
  | nil => rfl
  | cons arg rest ih => rw [List.map_cons, textsShowing, textsShowing, showingWrapped, ih]

theorem printWrapped (args : List Stmt) :
    (Stmt.print (args.map .stringify)).exec classes (.within classes depth) =
      (Stmt.print args).exec classes (.within classes depth) := by
  rw [Stmt.exec, Stmt.exec, textsWrapped]

end

namespace Sink

structure Extends (before after : Sink) : Prop where
  bytes : before.bytes <+: after.bytes
  limit : after.limit = before.limit

theorem Extends.refl (sink : Sink) : sink.Extends sink := ⟨List.prefix_refl _, rfl⟩

theorem Extends.trans {first second third : Sink} (before : first.Extends second)
    (behind : second.Extends third) : first.Extends third :=
  ⟨before.bytes.trans behind.bytes, behind.limit.trans before.limit⟩

theorem extendsWrite (sink : Sink) (data : List UInt8) : sink.Extends (sink.write data).2 :=
  ⟨List.prefix_append _ _, rfl⟩

theorem extendsWriteLine (sink : Sink) (text : String) : sink.Extends (sink.writeLine text).2 := by
  have first := sink.extendsWrite (utf8 text)
  unfold writeLine
  cases written : sink.write (utf8 text) with
  | mk fits after =>
    rw [written] at first
    cases fits with
    | true => exact first.trans (after.extendsWrite [0x0A])
    | false => exact first

theorem acceptedPrefix (sink : Sink) (data : List UInt8) : sink.accepted data <+: data := by
  unfold accepted
  cases sink.limit with
  | none => exact List.prefix_refl data
  | some limit => exact List.take_prefix _ data

theorem writeTaken {sink : Sink} {data : List UInt8} (taken : (sink.write data).1 = true) :
    (sink.write data).2.bytes = sink.bytes ++ data := by
  have whole : (sink.accepted data).length = data.length := by simpa [write] using taken
  simp only [write, (sink.acceptedPrefix data).eq_of_length whole]

theorem writeLineTaken {sink after : Sink} {text : String}
    (taken : sink.writeLine text = (true, after)) :
    after.bytes = sink.bytes ++ (utf8 text ++ [0x0A]) := by
  unfold writeLine at taken
  cases written : sink.write (utf8 text) with
  | mk fits between =>
    rw [written] at taken
    cases fits with
    | false => cases taken
    | true =>
      have first := writeTaken (congrArg Prod.fst written)
      have second := writeTaken (congrArg Prod.fst taken)
      rw [written] at first
      dsimp only at taken
      rw [taken] at second
      rw [second, first, List.append_assoc]

end Sink

namespace Exec

variable {text : String} {state after : State}

theorem writeLineDone : writeLine text state = .done () after ↔
    state.sink.writeLine text = (true, after.sink) ∧ after = { state with sink := after.sink } := by
  unfold writeLine
  obtain ⟨fits, sink⟩ := state.sink.writeLine text
  cases fits with
  | true =>
    constructor
    · intro wrote
      cases wrote
      exact ⟨rfl, rfl⟩
    · intro ⟨written, same⟩
      cases written
      rw [same]
  | false => simp

theorem writeLineFailed {error : RuntimeError} : writeLine text state = .failed error after ↔
    error = .sinkFull ∧ state.sink.writeLine text = (false, after.sink) ∧
      after = { state with sink := after.sink } := by
  unfold writeLine
  obtain ⟨fits, sink⟩ := state.sink.writeLine text
  cases fits with
  | true => simp
  | false =>
    constructor
    · intro wrote
      cases wrote
      exact ⟨rfl, rfl, rfl⟩
    · intro ⟨full, written, same⟩
      cases written
      rw [same, full]

end Exec

def printing : Transition where
  Moves s t := s.sink.Extends t.sink
  refl s := .refl s.sink
  trans first second := first.trans second
  bindName s _ _ := .refl s.sink
  setField s _ _ _ := .refl s.sink
  create s _ := .refl s.sink
  record s _ := .refl s.sink
  writeLine s text := s.sink.extendsWriteLine text
  inScope inside := inside

section
variable {classes : ClassTable} {depth : Nat} {args : List Stmt} {state after : State}

theorem showingPrints {arg : Stmt}
    (ended : (showing classes (.within classes depth) arg state).state? = some after) :
    (∃ output, after.sink.bytes = state.sink.bytes ++ output) ∧
      after.sink.limit = state.sink.limit := by
  have agree := printing.agree classes depth
  have evaluated := (printing.simulation classes).runExec agree arg ()
  have ends := Transition.alongBind evaluated
    (fun {value} _ => agree.display (w := ()) (Eq.refl value)) state
  change printing.Ends state _ (showing classes (.within classes depth) arg state) at ends
  obtain ⟨⟨output, printed⟩, limit⟩ := ends.moved ended
  exact ⟨⟨output, printed.symm⟩, limit⟩

theorem Rendered.bytes {outputs : List (List UInt8)} {texts : List String}
    (rendered : Rendered classes (.within classes depth) args state outputs texts after) :
    after.sink.bytes = state.sink.bytes ++ outputs.flatten := by
  induction rendered with
  | none => simp
  | next shown printed rest ih => rw [ih, printed, List.flatten_cons, List.append_assoc]

theorem Rendered.limit {outputs : List (List UInt8)} {texts : List String}
    (rendered : Rendered classes (.within classes depth) args state outputs texts after) :
    after.sink.limit = state.sink.limit := by
  induction rendered with
  | none => rfl
  | next shown printed rest ih => rw [ih, (showingPrints (by rw [shown]; rfl)).2]

theorem Unrendered.bytes {outputs : List (List UInt8)} {error : RuntimeError}
    (unrendered : Unrendered classes (.within classes depth) args state outputs error after) :
    after.sink.bytes = state.sink.bytes ++ outputs.flatten := by
  induction unrendered with
  | here failed printed => rw [printed, List.flatten_singleton]
  | later shown printed rest ih => rw [ih, printed, List.flatten_cons, List.append_assoc]

theorem textsRendered {texts : List String} :
    execTexts classes (.within classes depth) args state = .done texts after ↔
      ∃ outputs, Rendered classes (.within classes depth) args state outputs texts after := by
  constructor
  · intro ran
    induction args generalizing state texts with
    | nil =>
      rw [execTexts] at ran
      cases ran
      exact ⟨[], .none⟩
    | cons arg rest ih =>
      rw [textsShowing] at ran
      obtain ⟨text, between, shown, ran⟩ := Machine.bindDone.mp ran
      obtain ⟨others, final, ran, made⟩ := Machine.bindDone.mp ran
      cases made
      obtain ⟨⟨output, printed⟩, -⟩ := showingPrints (by rw [shown]; rfl)
      obtain ⟨outputs, rendered⟩ := ih ran
      exact ⟨output :: outputs, .next shown printed rendered⟩
  · intro ⟨outputs, rendered⟩
    induction rendered with
    | none =>
      rw [execTexts]
      rfl
    | next shown printed rest ih =>
      rw [textsShowing, Machine.bindOf shown, Machine.bindOf ih]
      rfl

theorem textsUnrendered {error : RuntimeError} :
    execTexts classes (.within classes depth) args state = .failed error after ↔
      ∃ outputs, Unrendered classes (.within classes depth) args state outputs error after := by
  constructor
  · intro ran
    induction args generalizing state with
    | nil =>
      rw [execTexts] at ran
      cases ran
    | cons arg rest ih =>
      rw [textsShowing] at ran
      rcases Machine.bindFailed.mp ran with failed | ⟨text, between, shown, ran⟩
      · obtain ⟨⟨output, printed⟩, -⟩ := showingPrints (by rw [failed]; rfl)
        exact ⟨[output], .here failed printed⟩
      · obtain ⟨⟨output, printed⟩, -⟩ := showingPrints (by rw [shown]; rfl)
        rcases Machine.bindFailed.mp ran with failed | ⟨_, _, _, made⟩
        · obtain ⟨outputs, unrendered⟩ := ih failed
          exact ⟨output :: outputs, .later shown printed unrendered⟩
        · cases made
  · intro ⟨outputs, unrendered⟩
    induction unrendered with
    | here failed printed => rw [textsShowing, Machine.bindRun, failed]
    | later shown printed rest ih => rw [textsShowing, Machine.bindOf shown, Machine.bindRun, ih]

theorem printRendered {outputs : List (List UInt8)} {texts : List String} {between : State}
    (rendered : Rendered classes (.within classes depth) args state outputs texts between) :
    (Stmt.print args).exec classes (.within classes depth) state =
      (Exec.writeLine (String.intercalate " " texts) >>= fun _ => pure .none : Exec Value) between := by
  rw [Stmt.exec, Machine.bindOf (textsRendered.mpr ⟨outputs, rendered⟩)]

theorem printUnrendered {outputs : List (List UInt8)} {error : RuntimeError}
    (unrendered : Unrendered classes (.within classes depth) args state outputs error after) :
    (Stmt.print args).exec classes (.within classes depth) state = .failed error after := by
  rw [Stmt.exec, Machine.bindRun, textsUnrendered.mpr ⟨outputs, unrendered⟩]

theorem printDone {value : Value}
    (ran : (Stmt.print args).exec classes (.within classes depth) state = .done value after) :
    value = .none ∧ ∃ outputs texts between,
      Rendered classes (.within classes depth) args state outputs texts between ∧
      between.sink.writeLine (String.intercalate " " texts) = (true, after.sink) ∧
      after = { between with sink := after.sink } := by
  rw [Stmt.exec] at ran
  obtain ⟨texts, between, made, ran⟩ := Machine.bindDone.mp ran
  obtain ⟨_, final, wrote, ran⟩ := Machine.bindDone.mp ran
  cases ran
  obtain ⟨outputs, rendered⟩ := textsRendered.mp made
  exact ⟨rfl, outputs, texts, between, rendered, Exec.writeLineDone.mp wrote⟩

theorem printFailed {error : RuntimeError}
    (ran : (Stmt.print args).exec classes (.within classes depth) state = .failed error after) :
    (∃ outputs, Unrendered classes (.within classes depth) args state outputs error after) ∨
      error = .sinkFull ∧ ∃ outputs texts between,
        Rendered classes (.within classes depth) args state outputs texts between ∧
        between.sink.writeLine (String.intercalate " " texts) = (false, after.sink) ∧
        after = { between with sink := after.sink } := by
  rw [Stmt.exec] at ran
  rcases Machine.bindFailed.mp ran with failed | ⟨texts, between, made, ran⟩
  · exact .inl (textsUnrendered.mp failed)
  · obtain ⟨outputs, rendered⟩ := textsRendered.mp made
    rcases Machine.bindFailed.mp ran with wrote | ⟨_, _, _, ran⟩
    · obtain ⟨full, cut⟩ := Exec.writeLineFailed.mp wrote
      exact .inr ⟨full, outputs, texts, between, rendered, cut⟩
    · cases ran

theorem printElsewhere (referring : state.Referring)
    (portable : (Stmt.print args).exec classes (.portable classes depth) state ≠ .exhausted)
    (others : Heap) : ∃ result after final,
      ((Stmt.print args).exec classes (.within classes depth) state).ending? =
        some (result, after) ∧
      ((Stmt.print args).exec classes (.within classes depth) (state.behind others)).ending? =
        some (result, final) ∧
      final.sink.bytes = after.sink.bytes ∧
      ∀ name, final.scope.contains name = after.scope.contains name := by
  obtain ⟨result, other, after, final, here, there, matched, seen⟩ :=
    execElsewhere referring portable others
  have same : other = result := by
    cases result with
    | ok value =>
      cases other with
      | ok found =>
        rw [(printDone (Outcome.endingOk.mp here)).1, (printDone (Outcome.endingOk.mp there)).1]
      | error => cases matched
    | error error =>
      cases other with
      | ok => cases matched
      | error found => exact congrArg Except.error matched.symm
  rw [same] at there
  exact ⟨result, after, final, here, there, seen⟩

end

theorem printExactly (classes : ClassTable) (depth : Nat) (args : List Stmt) (state : State) :
    ((Stmt.print (args.map .stringify)).exec classes (.within classes depth) state =
      (Stmt.print args).exec classes (.within classes depth) state) ∧
    (state.Referring →
      (Stmt.print args).exec classes (.portable classes depth) state ≠ .exhausted →
      ∀ others : Heap, ∃ result after final,
        ((Stmt.print args).exec classes (.within classes depth) state).ending? =
          some (result, after) ∧
        ((Stmt.print (args.map .stringify)).exec classes (.within classes depth)
          (state.behind others)).ending? = some (result, final) ∧
        final.sink.bytes = after.sink.bytes ∧
        ∀ name, final.scope.contains name = after.scope.contains name) ∧
    (∀ value after,
      (Stmt.print args).exec classes (.within classes depth) state = .done value after →
      value = .none ∧ ∃ outputs texts between,
        Rendered classes (.within classes depth) args state outputs texts between ∧
        after.sink.bytes = state.sink.bytes ++ outputs.flatten ++
          (Sink.utf8 (String.intercalate " " texts) ++ [0x0A]) ∧
        after = { between with sink := after.sink }) ∧
    (state.sink.limit = none → ∀ outputs texts between,
      Rendered classes (.within classes depth) args state outputs texts between → ∃ after,
        (Stmt.print args).exec classes (.within classes depth) state = .done .none after) ∧
    (∀ outputs error after,
      Unrendered classes (.within classes depth) args state outputs error after →
      (Stmt.print args).exec classes (.within classes depth) state = .failed error after ∧
        after.sink.bytes = state.sink.bytes ++ outputs.flatten) ∧
    ∀ error after,
      (Stmt.print args).exec classes (.within classes depth) state = .failed error after →
      (∃ outputs, Unrendered classes (.within classes depth) args state outputs error after) ∨
        error = .sinkFull ∧ ∃ outputs texts between,
          Rendered classes (.within classes depth) args state outputs texts between ∧
          between.sink.writeLine (String.intercalate " " texts) = (false, after.sink) ∧
          after = { between with sink := after.sink } := by
  refine ⟨by rw [printWrapped], ?_, ?_, ?_, ?_, fun error after ran => printFailed ran⟩
  · intro referring portable others
    rw [printWrapped]
    exact printElsewhere referring portable others
  · intro value after ran
    obtain ⟨nothing, outputs, texts, between, rendered, written, same⟩ := printDone ran
    refine ⟨nothing, outputs, texts, between, rendered, ?_, same⟩
    rw [Sink.writeLineTaken written, rendered.bytes]
  · intro unlimited outputs texts between rendered
    have sink : between.sink = ⟨none, between.sink.bytes⟩ := by rw [← unlimited, ← rendered.limit]
    rw [printRendered rendered, Machine.bindRun, Exec.writeLine, sink, Sink.writeLineUnlimited]
    exact ⟨_, rfl⟩
  · intro outputs error after unrendered
    exact ⟨printUnrendered unrendered, unrendered.bytes⟩

/- The text of the object is made by a method, which prints on its way: both times before the line. -/
theorem printExactlyTwice : ∃ after final,
    ((Stmt.print [.path ["box"], .path ["box"]]).exec spoken.classes (.within spoken.classes 2)
      oneBox).ending? = some (.ok .none, after) ∧
    after.sink.bytes = [0x61, 0x0A, 0x61, 0x0A, 0x62, 0x20, 0x62, 0x0A] ∧
    ((Stmt.print [.stringify (.path ["box"]), .stringify (.path ["box"])]).exec spoken.classes
      (.within spoken.classes 2) (oneBox.behind (Heap.empty.create 0))).ending? =
        some (.ok .none, final) ∧ final.sink.bytes = after.sink.bytes := by
  obtain ⟨-, elsewhere, -⟩ :=
    printExactly spoken.classes 2 [.path ["box"], .path ["box"]] oneBox
  obtain ⟨result, after, final, here, there, bytes, -⟩ :=
    elsewhere oneBoxReferring (by intro cut; cases cut) (Heap.empty.create 0)
  cases here
  exact ⟨_, final, rfl, by decide, there, bytes⟩

end Offside
