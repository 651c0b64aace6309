import ExprScript.Shell.Render
import ExprScript.Value.Equality
import Mathlib

/-! # Walks over values that may contain themselves

A value is put into a text by a walk that keeps a stack of the containers it is inside of. A
container that is on the stack already is cut off, so that the walk comes to an end on every heap.
It leaves the stack as it was, and so a container that is met again beside itself, and not inside
of itself, is walked over again.
-/

namespace ExprScript

structure Walk (κ : Type) where
  /-- The container that a value is. -/
  container? : Value → Option κ
  /-- The text of a value that is no container. -/
  plain : Value → String
  /-- The text of a container inside of itself. -/
  circular : String
  /-- The text of a container that is not entered. -/
  closed? : κ → Option String
  /-- The parts of a container: each has a text, which a value may follow. -/
  parts : κ → List (String × Option Value)
  /-- The texts of all parts, put together. -/
  join : κ → List String → String

namespace Walk

variable {κ : Type} [DecidableEq κ] (walk : Walk κ)

/-! ## The walk with its stack -/

def runParts (run : Value → StateT (List κ) Option String) :
    List (String × Option Value) → StateT (List κ) Option (List String)
  | [] => return []
  | (label, none) :: parts => return label :: (← runParts run parts)
  | (label, some value) :: parts => do
    let text ← run value
    return (label ++ text) :: (← runParts run parts)

/-- Puts a value into a text. A container is pushed before its parts and popped after them, and
neither if it is cut off or not entered. There is no result if the walk has to go deeper than
`depth` calls inside of each other. -/
def run : Nat → Value → StateT (List κ) Option String
  | 0, _ => failure
  | depth + 1, value => do
    match walk.container? value with
    | none => return walk.plain value
    | some container =>
      if container ∈ (← get) then return walk.circular
      else
        match walk.closed? container with
        | some text => return text
        | none =>
          modify (container :: ·)
          let texts ← runParts (run depth) (walk.parts container)
          modify List.tail
          return walk.join container texts

/-! ## The rule of the ancestors -/

def partText (text : Value → String) (part : String × Option Value) : String :=
  part.1 ++ (part.2.map text).getD ""

/-- The text of a value that is met inside of the containers `path`. -/
inductive Shows : List κ → Value → String → Prop
  | plain {path : List κ} {value : Value} (isPlain : walk.container? value = none) :
      Shows path value (walk.plain value)
  | circular {path : List κ} {value : Value} {container : κ}
      (is : walk.container? value = some container) (inside : container ∈ path) :
      Shows path value walk.circular
  | closed {path : List κ} {value : Value} {container : κ} {text : String}
      (is : walk.container? value = some container) (outside : container ∉ path)
      (closed : walk.closed? container = some text) : Shows path value text
  | entered {path : List κ} {value : Value} {container : κ} (text : Value → String)
      (is : walk.container? value = some container) (outside : container ∉ path)
      (isOpen : walk.closed? container = none)
      (parts : ∀ label part, (label, some part) ∈ walk.parts container →
        Shows (container :: path) part (text part)) :
      Shows path value (walk.join container ((walk.parts container).map (partText text)))

variable {walk} {path stack : List κ} {value : Value} {text : String} {depth : Nat}

theorem run_plain (isPlain : walk.container? value = none) :
    walk.run (depth + 1) value stack = some (walk.plain value, stack) := by
  rw [run, isPlain]
  rfl

/-- The walk at a container, with the stack that each of its steps meets. -/
theorem run_container {container : κ} (is : walk.container? value = some container) :
    walk.run (depth + 1) value stack =
      if container ∈ stack then some (walk.circular, stack)
      else
        match walk.closed? container with
        | some text => some (text, stack)
        | none => (runParts (walk.run depth) (walk.parts container) (container :: stack)).map
            fun (texts, after) => (walk.join container texts, after.tail) := by
  rw [run, is]
  simp only [bind, StateT.bind, get, getThe, MonadStateOf.get, StateT.get, pure, Option.bind_some]
  split
  · rfl
  · cases walk.closed? container with
    | some text => rfl
    | none =>
        simp only [bind, StateT.bind, modify, modifyGet, MonadStateOf.modifyGet, StateT.modifyGet,
          pure, Option.bind_some]
        cases runParts (walk.run depth) (walk.parts container) (container :: stack) <;> rfl

omit [DecidableEq κ] in
theorem runParts_eq {run : Value → StateT (List κ) Option String} {text : Value → String}
    {parts : List (String × Option Value)}
    (each : ∀ label part, (label, some part) ∈ parts → run part stack = some (text part, stack)) :
    runParts run parts stack = some (parts.map (partText text), stack) := by
  induction parts with
  | nil => rfl
  | cons part parts induction =>
      have later := induction fun label part member =>
        each label part (List.mem_cons_of_mem _ member)
      rcases part with ⟨label, _ | part⟩
      · simp only [runParts, bind, StateT.bind, later]
        simp [partText, pure, StateT.pure]
      · have here := each label part List.mem_cons_self
        simp only [runParts, bind, StateT.bind, here, later, Option.bind_some]
        rfl

/-! ## A container that is met again -/

inductive Meets (walk : Walk κ) : Value → κ → Prop
  | self {value : Value} {container : κ} (is : walk.container? value = some container) :
      Meets walk value container
  | part {value part : Value} {container other : κ} {label : String}
      (is : walk.container? value = some container)
      (member : (label, some part) ∈ walk.parts container) (meets : Meets walk part other) :
      Meets walk value other

omit [DecidableEq κ] in
theorem Shows.of_agree (shows : walk.Shows path value text) {path' : List κ}
    (agree : ∀ container, walk.Meets value container → (container ∈ path ↔ container ∈ path')) :
    walk.Shows path' value text := by
  induction shows generalizing path' with
  | plain isPlain => exact .plain isPlain
  | circular is inside => exact .circular is ((agree _ (.self is)).mp inside)
  | closed is outside closed =>
      exact .closed is (fun inside => outside ((agree _ (.self is)).mpr inside)) closed
  | entered text is outside isOpen parts induction =>
      refine .entered text is (fun inside => outside ((agree _ (.self is)).mpr inside)) isOpen ?_
      intro label part member
      apply induction label part member
      intro container meets
      rw [List.mem_cons, List.mem_cons, agree container (.part is member meets)]

/-! ## The walk comes to an end -/

def within (walk : Walk κ) : Nat → List κ → Value → String
  | 0, _, value => (walk.container? value).elim (walk.plain value) fun _ => walk.circular
  | depth + 1, path, value =>
    match walk.container? value with
    | none => walk.plain value
    | some container =>
      if container ∈ path then walk.circular
      else
        (walk.closed? container).getD <| walk.join container
          ((walk.parts container).map (partText (within walk depth (container :: path))))

def outside (all path : List κ) : Nat := (all.filter (· ∉ path)).length

theorem outside_cons_lt {all path : List κ} {container : κ} (member : container ∈ all)
    (new : container ∉ path) : outside all (container :: path) < outside all path := by
  have fewer : all.filter (· ∉ container :: path) =
      (all.filter (· ∉ path)).filter fun other => decide (other ≠ container) := by
    simp only [List.filter_filter, List.mem_cons, not_or, Bool.decide_and]
  unfold outside
  rw [fewer]
  apply List.length_filter_lt_length_iff_exists.mpr
  exact ⟨container, List.mem_filter.mpr ⟨member, by simpa using new⟩, by simp⟩

omit [DecidableEq κ] in
theorem mem_of_part {all : List κ} (finite : ∀ container ∉ all, walk.parts container = [])
    {container : κ} {part : String × Option Value} (member : part ∈ walk.parts container) :
    container ∈ all := by
  by_contra unknown
  rw [finite container unknown] at member
  cases member

theorem shows_within {all : List κ} (finite : ∀ container ∉ all, walk.parts container = [])
    (depth : Nat) (path : List κ) (value : Value) (enough : outside all path < depth) :
    walk.Shows path value (walk.within depth path value) := by
  induction depth generalizing path value with
  | zero => exact absurd enough (Nat.not_lt_zero _)
  | succ depth induction =>
      rw [within]
      cases is : walk.container? value with
      | none => exact .plain is
      | some container =>
          by_cases inside : container ∈ path
          · simp only [if_pos inside]
            exact .circular is inside
          · simp only [if_neg inside]
            cases closed : walk.closed? container with
            | some text => exact .closed is inside closed
            | none =>
                refine .entered _ is inside closed fun label part member => induction _ part ?_
                have fewer := outside_cons_lt (mem_of_part finite member) inside
                exact fewer.trans_le (Nat.le_of_lt_succ enough)

theorem Shows.run {all : List κ} (finite : ∀ container ∉ all, walk.parts container = [])
    (shows : walk.Shows stack value text) (enough : outside all stack ≤ depth) :
    walk.run (depth + 1) value stack = some (text, stack) := by
  induction shows generalizing depth with
  | plain isPlain => exact run_plain isPlain
  | circular is inside => rw [run_container is, if_pos inside]
  | closed is outside closed => rw [run_container is, if_neg outside, closed]
  | @entered path _ container text is outside isOpen parts induction =>
      have each : ∀ label part, (label, some part) ∈ walk.parts container →
          walk.run depth part (container :: path) = some (text part, container :: path) := by
        intro label part member
        have fewer := outside_cons_lt (mem_of_part finite member) outside
        rcases Nat.exists_eq_add_one.mpr (Nat.zero_lt_of_lt (fewer.trans_le enough))
          with ⟨depth, rfl⟩
        exact induction label part member (Nat.le_of_lt_succ (fewer.trans_le enough))
      rw [run_container is, if_neg outside, isOpen, runParts_eq each]
      rfl

theorem Shows.unique {all : List κ} (finite : ∀ container ∉ all, walk.parts container = [])
    {other : String} (shows : walk.Shows path value text) (shows' : walk.Shows path value other) :
    other = text := by
  have enough := Nat.le_refl (outside all path)
  have same := (shows'.run finite enough).symm.trans (shows.run finite enough)
  cases same
  rfl

/-- The walk puts values into texts by the rule of the ancestors. -/
structure Follows (walk : Walk κ) (depth : Nat) (whole : Value → String) : Prop where
  /-- It comes to an end from every stack, no deeper than `depth`, and leaves the stack as it was,
  with the one text that the rule gives. -/
  ends : ∀ value stack, ∃ text,
    (∀ deeper ≥ depth, walk.run deeper value stack = some (text, stack)) ∧
    ∀ other, walk.Shows stack value other ↔ other = text
  /-- From the root it gives the whole text. -/
  root : ∀ value, ∀ deeper ≥ depth, walk.run deeper value [] = some (whole value, [])
  /-- A value that is not met inside of itself, nor are its parts, has its whole text, wherever
  it is met. -/
  full : ∀ value path, (∀ container ∈ path, ¬ walk.Meets value container) →
    ∀ text, walk.Shows path value text ↔ text = whole value

theorem follows_of_finite {all : List κ} (finite : ∀ container ∉ all, walk.parts container = [])
    {whole : Value → String}
    (whole_eq : ∀ value, whole value = walk.within (all.length + 1) [] value) :
    walk.Follows (all.length + 1) whole := by
  have fewer : ∀ path, outside all path ≤ all.length := fun _ => List.length_filter_le ..
  have runs : ∀ {stack value text}, walk.Shows stack value text → ∀ deeper ≥ all.length + 1,
      walk.run deeper value stack = some (text, stack) := by
    intro stack value text shows deeper enough
    rcases Nat.exists_eq_add_of_le' enough with ⟨more, rfl⟩
    exact shows.run finite ((fewer stack).trans (Nat.le_add_left _ more))
  have exists_shows : ∀ value path, ∃ text, walk.Shows path value text := fun value path =>
    ⟨_, shows_within finite (all.length + 1) path value (Nat.lt_succ_of_le (fewer path))⟩
  have root : ∀ value, walk.Shows [] value (whole value) := by
    intro value
    rw [whole_eq]
    exact shows_within finite _ _ _ (Nat.lt_succ_of_le (fewer []))
  constructor
  · intro value stack
    rcases exists_shows value stack with ⟨text, shows⟩
    refine ⟨text, runs shows, fun other => ⟨shows.unique finite, ?_⟩⟩
    rintro rfl
    exact shows
  · exact fun value => runs (root value)
  · intro value path apart text
    have shows : walk.Shows path value (whole value) := by
      apply (root value).of_agree
      intro container meets
      exact iff_of_false List.not_mem_nil fun inside => apart container inside meets
    refine ⟨shows.unique finite, ?_⟩
    rintro rfl
    exact shows

end Walk

namespace Heap

variable {heap : Heap}

/-! ## Joining and showing -/

def plainText (heap : Heap) : Value → String
  | .undefined => "undefined"
  | .null => "null"
  | .boolean value => if value then "true" else "false"
  | .number value => Number.toText value
  | .string value => value
  | .object _ => "[object Object]"
  | .function ref => (heap.function ref).sourceText
  | .regExp ref => (heap.regExp ref).text
  | .array _ => ""

/-- The elements of an array are joined by commas. Values that stand for nothing are left empty,
and so is an array inside of itself. -/
def joining (heap : Heap) : Walk ArrayRef where
  container?
    | .array ref => some ref
    | _ => none
  plain := heap.plainText
  circular := ""
  closed? _ := none
  parts ref := (heap.array ref).toList.map fun value =>
    ("", if value.isNullish then none else some value)
  join _ := ",".intercalate

/-- Arrays and objects are shown like literals, and marked inside of themselves. -/
def showing (heap : Heap) : Walk Container where
  container?
    | .array ref => some (.array ref)
    | .object ref => some (.object ref)
    | _ => none
  plain
    | .string text => Text.quoteJson text
    | .function ref => (heap.function ref).render
    | value => heap.plainText value
  circular := "[Circular]"
  closed?
    | .array _ => none
    | .object ref => if (heap.object ref).isEmpty then some "\x7b\x7d" else none
  parts
    | .array ref => (heap.array ref).toList.map fun value => ("", some value)
    | .object ref => (heap.object ref).entries.map fun (key, value) =>
        (Text.quoteJson key ++ ": ", some value)
  join
    | .array _, items => "[" ++ ", ".intercalate items ++ "]"
    | .object _, fields => "\x7b " ++ ", ".intercalate fields ++ " \x7d"

theorem joining_parts (ref : ArrayRef) : heap.joining.parts ref =
    (heap.array ref).toList.map fun value => ("", if value.isNullish then none else some value) :=
  rfl

theorem showing_parts_array (ref : ArrayRef) : heap.showing.parts (.array ref) =
    (heap.array ref).toList.map fun value => ("", some value) :=
  rfl

theorem showing_parts_object (ref : ObjectRef) : heap.showing.parts (.object ref) =
    (heap.object ref).entries.map fun (key, value) =>
      (Text.quoteJson key ++ ": ", some value) :=
  rfl

theorem textWithin_eq (depth : Nat) (enclosing : List ArrayRef) (value : Value) :
    heap.textWithin depth enclosing value = heap.joining.within depth enclosing value := by
  induction depth generalizing enclosing value with
  | zero => cases value <;> simp only [textWithin] <;> rfl
  | succ depth induction =>
      cases value with
      | array ref =>
          have parts : ((heap.array ref).toList.map fun value =>
              if value.isNullish then "" else heap.textWithin depth (ref :: enclosing) value) =
                (heap.joining.parts ref).map
                  (Walk.partText (heap.joining.within depth (ref :: enclosing))) := by
            rw [joining_parts, List.map_map]
            apply List.map_congr_left
            intro value _
            cases nullish : value.isNullish with
            | true => simp [Walk.partText, nullish]
            | false => simp [Walk.partText, nullish, induction]
          rw [textWithin, parts]
          simp only [List.contains_iff_mem]
          rfl
      | _ =>
          simp only [textWithin]
          rfl

theorem renderWithin_eq (depth : Nat) (enclosing : List Container) (value : Value) :
    heap.renderWithin depth enclosing value = heap.showing.within depth enclosing value := by
  induction depth generalizing enclosing value with
  | zero => cases value <;> simp only [renderWithin] <;> rfl
  | succ depth induction =>
      cases value with
      | array ref =>
          have parts : ((heap.array ref).toList.map fun value =>
              heap.renderWithin depth (.array ref :: enclosing) value) =
                (heap.showing.parts (.array ref)).map
                  (Walk.partText (heap.showing.within depth (.array ref :: enclosing))) := by
            rw [showing_parts_array, List.map_map]
            apply List.map_congr_left
            intro value _
            simp [Walk.partText, induction]
          rw [renderWithin, parts]
          simp only [List.contains_iff_mem]
          rfl
      | object ref =>
          have parts : ((heap.object ref).entries.map fun (key, value) =>
              Text.quoteJson key ++ ": " ++
                heap.renderWithin depth (.object ref :: enclosing) value) =
                (heap.showing.parts (.object ref)).map
                  (Walk.partText (heap.showing.within depth (.object ref :: enclosing))) := by
            rw [showing_parts_object, List.map_map]
            apply List.map_congr_left
            intro entry _
            simp [Walk.partText, induction]
          have entered : heap.showing.within (depth + 1) enclosing (.object ref) =
              if .object ref ∈ enclosing then "[Circular]"
              else
                (if (heap.object ref).entries.isEmpty then some "\x7b\x7d" else none).getD
                  ("\x7b " ++ ", ".intercalate ((heap.showing.parts (.object ref)).map
                    (Walk.partText (heap.showing.within depth (.object ref :: enclosing)))) ++
                      " \x7d") := rfl
          rw [renderWithin, entered, ← parts]
          simp only [List.contains_iff_mem]
          cases (heap.object ref).entries with
          | nil => rfl
          | cons entry entries => rfl
      | _ =>
          simp only [renderWithin]
          rfl

theorem joining_parts_of_not_mem {ref : ArrayRef}
    (outside : ref ∉ (List.range heap.arrays.size).map ArrayRef.mk) :
    heap.joining.parts ref = [] := by
  rw [joining_parts, List.map_eq_nil_iff, List.eq_nil_iff_forall_not_mem]
  intro value member
  have known := mem_containers_of_element member
  simp only [containers, List.mem_append, List.mem_map, List.mem_range, Container.array.injEq,
    reduceCtorEq, and_false, exists_false, or_false] at known
  exact outside (List.mem_map.mpr (by simpa only [List.mem_range] using known))

theorem showing_parts_of_not_mem {container : Container} (outside : container ∉ heap.containers) :
    heap.showing.parts container = [] := by
  cases container with
  | array ref =>
      rw [showing_parts_array, List.map_eq_nil_iff, List.eq_nil_iff_forall_not_mem]
      exact fun value member => outside (mem_containers_of_element member)
  | object ref =>
      rw [showing_parts_object, List.map_eq_nil_iff, List.eq_nil_iff_forall_not_mem]
      exact fun entry member => outside (mem_containers_of_entry member)

/-- On every heap, joining and showing follow the rule of the ancestors, from every stack: they
come to an end, no deeper than there are containers, and leave the stack as it was. What is met
inside of itself is cut off, and a value that is met again elsewhere has its whole text each
time. -/
theorem walks_follow (heap : Heap) :
    heap.joining.Follows (heap.arrays.size + 1) heap.toText ∧
      heap.showing.Follows (heap.containerCount + 1) heap.render := by
  have arrays : ((List.range heap.arrays.size).map ArrayRef.mk).length = heap.arrays.size := by
    rw [List.length_map, List.length_range]
  have containers : heap.containers.length = heap.containerCount := by
    simp only [Heap.containers, containerCount, List.length_append, List.length_map,
      List.length_range]
  constructor
  · rw [← arrays]
    apply Walk.follows_of_finite fun _ => joining_parts_of_not_mem
    intro value
    rw [toText, textWithin_eq, arrays]
  · rw [← containers]
    apply Walk.follows_of_finite fun _ => showing_parts_of_not_mem
    intro value
    rw [render, renderWithin_eq, containers]

private def around : Heap :=
  { arrays := #[.ofList [.null, .object ⟨0⟩], .ofList [.object ⟨0⟩, .object ⟨0⟩]]
    objects := #[.ofEntries [("a", .array ⟨0⟩)]] }

example : around.render (.array ⟨0⟩) = "[null, \x7b \"a\": [Circular] \x7d]" := by decide +kernel

/-- The object has its whole text twice, since it is not inside of itself there. -/
example : around.render (.array ⟨1⟩) =
    "[\x7b \"a\": [null, [Circular]] \x7d, \x7b \"a\": [null, [Circular]] \x7d]" := by
  decide +kernel

end Heap

end ExprScript
