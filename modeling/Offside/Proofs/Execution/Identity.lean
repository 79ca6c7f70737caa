import Offside.Proofs.Execution.Course

/-! The identity of objects in their texts. An object that no method of it gives a text is told by its
class and the place where it lies. It keeps both for as long as a run goes on, and the place can be read
off the text whatever the class is called. So the texts tell the objects apart wherever these lie, if
only no two of them lie at one place. -/
namespace Offside

namespace Address

def hexValue (digit : Char) : Nat :=
  if digit.isDigit then digit.toNat - '0'.toNat else digit.toNat - 'a'.toNat + 10

def hexNumber (digits : List Char) : Nat :=
  digits.foldl (fun number digit => 16 * number + hexValue digit) 0

theorem hexDigit : ∀ digit < 16, hexValue digit.digitChar = digit ∧ digit.digitChar ≠ ' ' := by
  decide

theorem hexDigits (number : Nat) :
    hexNumber (Nat.toDigits 16 number) = number ∧ ' ' ∉ Nat.toDigits 16 number := by
  induction number using Nat.strongRecOn with
  | ind number smaller =>
    by_cases small : number < 16
    · obtain ⟨value, clear⟩ := hexDigit number small
      rw [Nat.toDigits_of_lt_base small]
      simp [hexNumber, value, clear.symm]
    · obtain ⟨value, clear⟩ := hexDigit (number % 16) (Nat.mod_lt _ (by decide))
      obtain ⟨rest, spaceless⟩ := smaller (number / 16) (by omega)
      rw [Nat.toDigits_of_base_le (by decide) (by omega)]
      constructor
      · rw [hexNumber, List.foldl_append]
        change 16 * hexNumber (Nat.toDigits 16 (number / 16)) + hexValue (number % 16).digitChar = number
        rw [rest, value]
        omega
      · simp [spaceless, clear.symm]

theorem hexInjective : Function.Injective (Nat.toDigits 16) := by
  intro first second same
  rw [← (hexDigits first).1, same, (hexDigits second).1]

theorem placeInjective : Function.Injective place := by
  intro first second same
  exact Nat.eq_of_mul_eq_mul_left (by decide : 0 < stride) (Nat.add_left_cancel same)

end Address

section
variable {α : Type} {mark : α} {before between behind front back : List α}

theorem markedOnce (same : mark :: behind = between ++ mark :: back) (clear : mark ∉ behind) :
    between = [] ∧ behind = back := by
  cases between with
  | nil => exact ⟨rfl, (List.cons.inj same).2⟩
  | cons head others =>
    obtain ⟨-, rfl⟩ := List.cons.inj same
    simp at clear

theorem partedAtLast (same : before ++ mark :: behind = front ++ mark :: back)
    (clear : mark ∉ behind) (free : mark ∉ back) : before = front ∧ behind = back := by
  obtain ⟨between, rfl, parts⟩ | ⟨between, rfl, parts⟩ := List.append_eq_append_iff.mp same
  · obtain ⟨rfl, rfl⟩ := markedOnce parts clear
    exact ⟨(List.append_nil _).symm, rfl⟩
  · obtain ⟨rfl, rfl⟩ := markedOnce parts free
    exact ⟨List.append_nil _, rfl⟩

end

/- The name of a class may hold what the text of an object is made of; the last space of the text is
still the one before the place. -/
theorem Heap.objectTextInjective {place : Address → Nat} (apart : Function.Injective place)
    (classes : ClassTable) (heap : Heap) : Function.Injective (heap.objectText place classes) := by
  intro first second same
  let behind (address : Address) : List Char := '0' :: 'x' :: Nat.toDigits 16 (place address) ++ ['>']
  have parted : ∀ address, (heap.objectText place classes address).toList =
      ("<" ++ heap.className classes address ++ " object at").toList ++ ' ' :: behind address := by
    intro address
    simp [objectText, behind]
  have clear : ∀ address, ' ' ∉ behind address := by
    intro address
    simp [behind, (Address.hexDigits (place address)).2]
  have lists := congrArg String.toList same
  rw [parted, parted] at lists
  obtain ⟨-, places⟩ := partedAtLast lists (clear first) (clear second)
  exact apart (Address.hexInjective (by simpa [behind] using places))

def Heap.Mute (classes : ClassTable) (heap : Heap) (address : Address) : Prop :=
  ∃ object, heap.get? address = some object ∧ ∀ cls method, classes.get? object.cls = some cls →
    cls.method? Method.stringName = some method → method.params ≠ []

namespace Heap.Mute

variable {classes : ClassTable} {address : Address}

theorem later {before after : Heap} (mute : before.Mute classes address) (grows : before.Grows after) :
    after.Mute classes address ∧ ∀ place,
      after.objectText place classes address = before.objectText place classes address := by
  obtain ⟨object, held, silent⟩ := mute
  obtain ⟨later, still, becomes⟩ := grows held
  refine ⟨⟨later, still, by rwa [becomes.cls]⟩, fun place => ?_⟩
  rw [objectText, objectText, classNameOf, classNameOf, still, held, Option.map_some,
    Option.map_some, becomes.cls]

theorem methodless {heap : Heap} (mute : heap.Mute classes address) :
    (Value.object address).hasStringMethod classes heap = false := by
  obtain ⟨object, held, silent⟩ := mute
  have missing : classes.methodTaking? object.cls Method.stringName 0 = none := by
    unfold ClassTable.methodTaking?
    cases known : classes.get? object.cls with
    | none => rfl
    | some cls =>
      unfold ClassDef.methodTaking?
      cases found : cls.method? Method.stringName with
      | none => simp [found]
      | some method => simp [found, silent cls method known found]
  simp [Value.hasStringMethod, methodTakingOf, held, missing]

theorem displayed {state : State} (mute : state.heap.Mute classes address) (depth : Nat) :
    (Dispatch.within classes depth).display (.object address) state =
      .done (state.heap.objectText Address.place classes address) state := by
  have shown : ∀ dispatch, (Value.object address).display classes dispatch state =
      .done (state.heap.objectText Address.place classes address) state := by
    intro dispatch
    change (if (Value.object address).hasStringMethod classes state.heap then _ else
      pure (state.heap.objectText Address.place classes address) : Exec String) state = _
    rw [mute.methodless]
    rfl
  cases depth with
  | zero => exact shown _
  | succ depth => exact shown _

end Heap.Mute

/- The states of a run are those of its course. At each of them an object without a string method has the
text that it had before, and no other such object has it. Neither depends on where the objects lie. -/
theorem textsIdentify (classes : ClassTable) (start : State) :
    (∀ depth statements, ∃ states, Course (Program.run depth ⟨statements, classes⟩) start states) ∧
    (∀ depth statement, ∃ states,
      Course (Stmt.exec classes (.within classes depth) statement) start states) ∧
    ∀ {α : Type} {machine : Exec α} {states : List State}, Course machine start states →
      states.head? = some start ∧
      (∀ after, (machine start).state? = some after → states.getLast? = some after) ∧
      (states.Pairwise fun earlier later => ∀ address, earlier.heap.Mute classes address →
        later.heap.Mute classes address ∧ ∃ text, ∀ depth,
          (Dispatch.within classes depth).display (.object address) earlier = .done text earlier ∧
          (Dispatch.within classes depth).display (.object address) later = .done text later) ∧
      (∀ state ∈ states, ∀ first second, first ≠ second → state.heap.Mute classes first →
        state.heap.Mute classes second → ∃ text other, text ≠ other ∧ ∀ depth,
          (Dispatch.within classes depth).display (.object first) state = .done text state ∧
          (Dispatch.within classes depth).display (.object second) state = .done other state) ∧
      (∀ state ∈ states, ∀ address, state.heap.Mute classes address → ∀ depth,
        (Dispatch.within classes depth).display (.object address) state =
          .done (state.heap.objectText Address.place classes address) state) ∧
      ∀ place : Address → Nat,
        (states.Pairwise fun earlier later => ∀ address, earlier.heap.Mute classes address →
          later.heap.objectText place classes address =
            earlier.heap.objectText place classes address) ∧
        (Function.Injective place → ∀ state ∈ states,
          Function.Injective (state.heap.objectText place classes)) := by
  refine ⟨fun depth statements => Course.habit.run _ depth start, fun depth statement =>
    Course.habit.exec (Course.habit.within classes depth) statement start, ?_⟩
  intro α machine states course
  refine ⟨course.starts, fun _ => course.ends, course.grows.imp fun grows address mute => ?_, ?_,
    fun _ _ _ mute => mute.displayed, fun place => ⟨?_, ?_⟩⟩
  · obtain ⟨still, sameText⟩ := mute.later grows
    refine ⟨still, _, fun depth => ⟨mute.displayed depth, ?_⟩⟩
    rw [still.displayed, sameText]
  · intro state _ first second distinct mute silent
    refine ⟨_, _, fun same => distinct ?_, fun depth => ⟨mute.displayed depth, silent.displayed depth⟩⟩
    exact state.heap.objectTextInjective Address.placeInjective classes same
  · exact course.grows.imp fun grows _ mute => (mute.later grows).2 place
  · exact fun apart state _ => state.heap.objectTextInjective apart classes

def namesakes : ClassTable :=
  (ClassTable.empty.declare "P" none []).declare "P object at 0x550000000000> <P" none
    [⟨"__str__", ["other"], .none⟩]

theorem textsIdentifyNamesakes : ∃ start final states text other,
    Course (Stmt.exec namesakes (.within namesakes 1) (.create 1 [])) start states ∧
    states.head? = some start ∧ states.getLast? = some final ∧ text ≠ other ∧ ∀ depth,
      (Dispatch.within namesakes depth).display (.object 0) start = .done text start ∧
      (Dispatch.within namesakes depth).display (.object 0) final = .done text final ∧
      (Dispatch.within namesakes depth).display (.object 1) final = .done other final := by
  let start : State := ⟨.empty, Heap.empty.create 0, .unlimited, .empty⟩
  obtain ⟨final, ended, heap⟩ : ∃ final,
      (Stmt.exec namesakes (.within namesakes 1) (.create 1 []) start).state? = some final ∧
      final.heap = start.heap.create 1 := ⟨_, rfl, rfl⟩
  have mute : start.heap.Mute namesakes 0 := by
    refine ⟨_, rfl, fun cls method known found => ?_⟩
    cases known
    cases found
  have silent : final.heap.Mute namesakes 1 := by
    rw [heap]
    refine ⟨_, rfl, fun cls method known found => ?_⟩
    cases known
    cases found
    decide
  obtain ⟨-, exist, each⟩ := textsIdentify namesakes start
  obtain ⟨states, course⟩ := exist 1 (.create 1 [])
  obtain ⟨first, last, stable, apart, -⟩ := each course
  have reached : final ∈ states := List.mem_of_getLast? (last final ended)
  obtain ⟨others, rfl⟩ := List.head?_eq_some_iff.mp first
  have behind : final ∈ others := by
    refine (List.mem_cons.mp reached).resolve_left fun same => ?_
    rw [same] at heap
    cases heap
  obtain ⟨still, kept, shown⟩ := (List.pairwise_cons.mp stable).1 final behind 0 mute
  obtain ⟨text, other, different, told⟩ := apart final reached 0 1 (by decide) still silent
  obtain rfl : kept = text := by
    have twice := (shown 0).2.symm.trans (told 0).1
    cases twice
    rfl
  exact ⟨start, final, _, kept, other, course, first, last final ended, different,
    fun depth => ⟨(shown depth).1, (shown depth).2, (told depth).2⟩⟩

end Offside
