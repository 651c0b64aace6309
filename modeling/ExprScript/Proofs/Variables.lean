import ExprScript.Proofs.Effect.Heap
import ExprScript.Proofs.RecordEntries

/-! # Variables

An assignment gives one variable a new value: afterwards its name is found with that
value, and every other name is found as before. The root of the scope has to be on
the heap, since a new variable is created there.
-/

namespace ExprScript

namespace Scope

theorem frames_eq (scope : Scope) : ∃ front, scope.frames = front ++ [scope.root] := by
  unfold root frames
  cases last : scope.outer.getLast? with
  | none =>
      rw [List.getLast?_eq_none_iff.mp last]
      exact ⟨[], rfl⟩
  | some frame =>
      rcases List.getLast?_eq_some_iff.mp last with ⟨front, parts⟩
      exact ⟨scope.inner :: front, by rw [parts]; rfl⟩

theorem root_mem_frames (scope : Scope) : scope.root ∈ scope.frames := by
  rcases scope.frames_eq with ⟨front, parts⟩
  rw [parts]
  exact List.mem_append_right _ (.head _)

end Scope

namespace Heap

variable {heap : Heap} {scope : Scope} {frame : ObjectRef} {name : String}

theorem inside_of_has (has : (heap.object frame).has name = true) :
    frame.index < heap.objects.size := by
  by_contra outside
  have missing : heap.object frame = {} := by
    rw [object, Array.getElem?_eq_none (Nat.not_lt.mp outside)]
    rfl
  rw [missing] at has
  cases has

theorem get?_setVariable (inside : frame.index < heap.objects.size) (value : Value)
    (other : ObjectRef) (key : String) :
    ((heap.setVariable frame name value).object other).get? key =
      if other = frame ∧ key = name then some value else (heap.object other).get? key := by
  rw [setVariable, object_setObject]
  by_cases same : other = frame
  · subst same
    rw [if_pos ⟨rfl, inside⟩, Record.get?_set]
    simp
  · simp [same]

theorem size_setVariable (heap : Heap) (frame : ObjectRef) (name : String) (value : Value) :
    (heap.setVariable frame name value).objects.size = heap.objects.size :=
  Array.size_setIfInBounds

theorem owner_mem (heap : Heap) (scope : Scope) (name : String) :
    heap.owner scope name ∈ scope.frames := by
  unfold owner
  cases found : scope.frames.find? fun frame => (heap.object frame).has name with
  | none => exact scope.root_mem_frames
  | some frame => exact List.mem_of_find?_eq_some found

theorem owner_cases (heap : Heap) (scope : Scope) (name : String) :
    (heap.object (heap.owner scope name)).has name = true ∨
      heap.owner scope name = scope.root ∧
        ∀ frame ∈ scope.frames, ¬ (heap.object frame).has name = true := by
  unfold owner
  cases found : scope.frames.find? fun frame => (heap.object frame).has name with
  | none => exact .inr ⟨rfl, List.find?_eq_none.mp found⟩
  | some frame =>
      have has := List.find?_some found
      exact .inl has

theorem owner_inside (inside : scope.root.index < heap.objects.size) (name : String) :
    (heap.owner scope name).index < heap.objects.size := by
  rcases heap.owner_cases scope name with has | ⟨isRoot, -⟩
  · exact inside_of_has has
  · rwa [isRoot]

/-- A frame that is looked at before the owner does not have the name. -/
private theorem findSome?_owner (frames : List ObjectRef) (fallback : ObjectRef)
    (has : ObjectRef → Bool) (value : Value) (read : ObjectRef → Option Value)
    (reads : ∀ frame, (read frame).isSome = has frame)
    (member : (frames.find? has).getD fallback ∈ frames) :
    frames.findSome? (fun frame =>
      if frame = (frames.find? has).getD fallback then some value else read frame) =
        some value := by
  induction frames with
  | nil => cases member
  | cons frame frames induction =>
      rw [List.find?_cons] at member ⊢
      rw [List.findSome?_cons]
      cases found : has frame with
      | true => simp
      | false =>
          rw [found] at member
          by_cases same : frame = (frames.find? has).getD fallback
          · simp [same]
          · have nothing : read frame = none := by
              rw [← Option.not_isSome_iff_eq_none, reads, found]
              exact Bool.false_ne_true
            rw [if_neg same, nothing]
            exact induction ((List.mem_cons.mp member).resolve_left fun equal => same equal.symm)

theorem lookup?_assign (inside : scope.root.index < heap.objects.size) (name : String)
    (value : Value) (other : String) : (heap.assign scope name value).lookup? scope other =
      if other = name then some value else heap.lookup? scope other := by
  have read : ∀ frame other, ((heap.setVariable (heap.owner scope name) name value).object
      frame).get? other = _ := get?_setVariable (owner_inside inside name) value
  unfold assign lookup?
  split
  · next same =>
      subst same
      simp only [read, and_true]
      exact findSome?_owner scope.frames scope.root _ value _ (fun _ => rfl)
        (heap.owner_mem scope other)
  · next different => simp only [read, different, and_false, if_false]

/-- Variables that are assigned one after the other. -/
theorem lookup?_assignAll {entries : List (String × Value)}
    (inside : scope.root.index < heap.objects.size) (distinct : (entries.map (·.1)).Nodup)
    (other : String) :
    (entries.foldl (fun heap (name, value) => heap.assign scope name value) heap).lookup? scope
      other = (entries.lookup other).or (heap.lookup? scope other) := by
  induction entries generalizing heap with
  | nil => rfl
  | cons entry entries induction =>
      rcases entry with ⟨name, value⟩
      rcases List.nodup_cons.mp distinct with ⟨new, later⟩
      have stays : scope.root.index < (heap.assign scope name value).objects.size := by
        rw [assign, size_setVariable]
        exact inside
      rw [List.foldl_cons, induction stays later, lookup?_assign inside, List.lookup_cons]
      by_cases same : other = name
      · subst same
        have missing : entries.lookup other = none := by
          apply List.lookup_eq_none_iff.mpr
          intro entry member
          rw [bne_iff_ne]
          intro equal
          exact new (List.mem_map.mpr ⟨entry, member, equal.symm⟩)
        simp [missing]
      · simp [same, beq_eq_false_iff_ne.mpr same]

/-! ## The binding that an assignment writes -/

/-- The chain of frames around the frame that an assignment writes to. The frames in front of it
do not have the name, and it has the name itself unless it is the root of a chain without it. -/
theorem owner_split (heap : Heap) (scope : Scope) (name : String) : ∃ inner outer,
    scope.frames = inner ++ heap.owner scope name :: outer ∧
      (∀ frame ∈ inner, (heap.object frame).has name = false) ∧
      ((heap.object (heap.owner scope name)).has name = true ∨
        outer = [] ∧ (heap.object (heap.owner scope name)).has name = false) := by
  unfold owner
  cases found : scope.frames.find? fun frame => (heap.object frame).has name with
  | none =>
      have missing : ∀ frame ∈ scope.frames, (heap.object frame).has name = false :=
        fun frame member => Bool.eq_false_iff.mpr (List.find?_eq_none.mp found frame member)
      rcases scope.frames_eq with ⟨front, parts⟩
      refine ⟨front, [], parts, fun frame member => missing frame ?_, .inr ⟨rfl, ?_⟩⟩
      · rw [parts]
        exact List.mem_append_left _ member
      · exact missing _ scope.root_mem_frames
  | some frame =>
      rcases List.find?_eq_some_iff_append.mp found with ⟨has, inner, outer, parts, before⟩
      refine ⟨inner, outer, parts, fun frame member => ?_, .inl has⟩
      simpa using before frame member

theorem owner_eq {inner outer : List ObjectRef} (parts : scope.frames = inner ++ frame :: outer)
    (before : ∀ frame ∈ inner, (heap.object frame).has name = false)
    (at' : (heap.object frame).has name = true ∨
      outer = [] ∧ (heap.object frame).has name = false) : heap.owner scope name = frame := by
  unfold owner
  rcases at' with has | ⟨rfl, missing⟩
  · have found : scope.frames.find? (fun frame => (heap.object frame).has name) = some frame :=
      List.find?_eq_some_iff_append.mpr ⟨has, inner, outer, parts, fun frame member => by
        simp [before frame member]⟩
    rw [found]
    rfl
  · have found : scope.frames.find? (fun frame => (heap.object frame).has name) = none := by
      rw [parts, List.find?_eq_none]
      intro other member
      rcases List.mem_append.mp member with member | member
      · simp [before other member]
      · cases List.mem_singleton.mp member
        simp [missing]
    rcases scope.frames_eq with ⟨front, parts'⟩
    rw [found]
    exact (List.append_inj' (parts'.symm.trans parts) rfl).2 |> List.singleton_inj.mp

/-- Every frame of the scope is an object of its own on the heap. -/
structure Backed (heap : Heap) (scope : Scope) : Prop where
  distinct : scope.frames.Nodup
  inside : ∀ frame ∈ scope.frames, frame.index < heap.objects.size

theorem backed_newRoot (heap : Heap) (vars : Record) :
    (heap.newRoot vars).2.Backed (heap.newRoot vars).1 where
  distinct := List.nodup_singleton _
  inside := by
    rintro frame member
    cases List.mem_singleton.mp member
    exact Nat.lt_of_lt_of_eq (Nat.lt_succ_self _) (Array.size_push _).symm

theorem Backed.newChild (backed : heap.Backed scope) (vars : Record) :
    (heap.newChild scope vars).2.Backed (heap.newChild scope vars).1 where
  distinct := by
    refine List.nodup_cons.mpr ⟨fun member => ?_, backed.distinct⟩
    exact absurd (backed.inside _ member) (Nat.lt_irrefl _)
  inside := by
    intro frame member
    have size : (heap.newChild scope vars).2.objects.size = heap.objects.size + 1 :=
      Array.size_push _
    rw [size]
    rcases List.mem_cons.mp member with rfl | member
    · exact Nat.lt_succ_self _
    · exact Nat.lt_succ_of_lt (backed.inside frame member)

theorem Backed.assign (backed : heap.Backed scope) (target : Scope) (name : String)
    (value : Value) : (heap.assign target name value).Backed scope where
  distinct := backed.distinct
  inside := by
    rw [Heap.assign, size_setVariable]
    exact backed.inside

theorem hasName_eq (heap : Heap) (scope : Scope) (name : String) :
    heap.hasName scope name = (heap.lookup? scope name).isSome := by
  unfold hasName lookup?
  induction scope.frames with
  | nil => rfl
  | cons frame frames induction =>
      rw [List.any_cons, induction, List.findSome?_cons, Record.has]
      cases (heap.object frame).get? name <;> rfl

theorem lookup?_congr {after : Heap} (same : ∀ frame ∈ scope.frames,
    (after.object frame).get? name = (heap.object frame).get? name) :
    after.lookup? scope name = heap.lookup? scope name := by
  unfold lookup?
  generalize scope.frames = frames at same
  induction frames with
  | nil => rfl
  | cons frame frames induction =>
      rw [List.findSome?_cons, List.findSome?_cons, same frame (.head _),
        induction fun frame member => same frame (.tail _ member)]

variable {ancestor : Scope}

theorem owner_of_suffix (distinct : scope.frames.Nodup) (suffix : ancestor.frames <:+ scope.frames)
    (member : heap.owner scope name ∈ ancestor.frames) :
    heap.owner ancestor name = heap.owner scope name := by
  rcases heap.owner_split scope name with ⟨inner, outer, parts, before, here⟩
  rcases suffix with ⟨front, whole⟩
  rcases List.append_of_mem member with ⟨first, second, parts'⟩
  rw [parts', ← List.append_assoc, parts] at whole
  rw [parts] at distinct
  -- The owner occurs only once, so what is around it is the same for both.
  have once := List.nodup_middle.mp distinct
  rw [List.nodup_cons, List.mem_append, not_or] at once
  rcases (List.append_cons_inj_of_notMem once.1.1 once.1.2).mp whole.symm with ⟨rfl, -, rfl⟩
  exact owner_eq parts' (fun frame member => before frame (List.mem_append_right _ member)) here

/-- What an assignment changes for a scope and for the scopes around it. -/
theorem lookup?_assign_suffix (backed : heap.Backed scope)
    (suffix : ancestor.frames <:+ scope.frames) (name : String) (value : Value) (other : String) :
    (heap.assign scope name value).lookup? ancestor other =
      if other = name ∧ heap.owner scope name ∈ ancestor.frames then some value
      else heap.lookup? ancestor other := by
  have inside := backed.inside _ (suffix.subset ancestor.root_mem_frames)
  by_cases member : heap.owner scope name ∈ ancestor.frames
  · have same : heap.assign scope name value = heap.assign ancestor name value := by
      rw [assign, assign, owner_of_suffix backed.distinct suffix member]
    rw [same, lookup?_assign inside]
    simp [member]
  · rw [if_neg fun wrong => member wrong.2]
    apply lookup?_congr
    intro frame inFrames
    have different : frame ≠ heap.owner scope name := by
      rintro rfl
      exact member inFrames
    have ownerInside := owner_inside (backed.inside _ scope.root_mem_frames) name
    rw [assign, get?_setVariable ownerInside, if_neg fun wrong => different wrong.1]

/-- An assignment writes one binding of a chain of frames: the one of the nearest frame that has
the name, or a new one in the root. From the scope and from every scope around it, all other names
are found as before, and a name is there exactly if it is found. -/
theorem assign_one_binding (backed : heap.Backed scope) (name : String) (value : Value) :
    let after := heap.assign scope name value
    ∃ inner owner outer,
      scope.frames = inner ++ owner :: outer ∧ owner ∉ inner ++ outer ∧
      (∀ frame ∈ inner, (heap.object frame).has name = false) ∧
      ((heap.object owner).has name = true ∨
        owner = scope.root ∧ ∀ frame ∈ scope.frames, (heap.object frame).has name = false) ∧
      (∀ other, (after.object owner).get? other =
        if other = name then some value else (heap.object owner).get? other) ∧
      (∀ frame, frame ≠ owner → after.object frame = heap.object frame) ∧
      after.lookup? scope name = some value ∧
      ∀ ancestor : Scope, ancestor.frames <:+ scope.frames →
        (∀ other, other ≠ name → after.lookup? ancestor other = heap.lookup? ancestor other) ∧
        after.lookup? ancestor name =
          (if owner ∈ ancestor.frames then some value else heap.lookup? ancestor name) ∧
        ∀ key, heap.hasName ancestor key = (heap.lookup? ancestor key).isSome ∧
          after.hasName ancestor key = (after.lookup? ancestor key).isSome := by
  have inside := owner_inside (backed.inside _ scope.root_mem_frames) name
  rcases heap.owner_split scope name with ⟨inner, outer, parts, before, here⟩
  have once : heap.owner scope name ∉ inner ++ outer := by
    have distinct := backed.distinct
    rw [parts, List.nodup_middle] at distinct
    exact (List.nodup_cons.mp distinct).1
  refine ⟨inner, heap.owner scope name, outer, parts, once, before, ?_, fun other => ?_,
    fun frame different => ?_, ?_, fun ancestor suffix => ⟨fun other different => ?_, ?_,
    fun key => ⟨hasName_eq .., hasName_eq ..⟩⟩⟩
  · rcases heap.owner_cases scope name with has | ⟨isRoot, missing⟩
    · exact .inl has
    · exact .inr ⟨isRoot, fun frame member => Bool.eq_false_iff.mpr (missing frame member)⟩
  · rw [assign, get?_setVariable inside]
    simp
  · rw [assign, setVariable, object_setObject, if_neg fun wrong => different wrong.1]
  · rw [lookup?_assign_suffix backed List.suffix_rfl, if_pos ⟨rfl, heap.owner_mem scope name⟩]
  · rw [lookup?_assign_suffix backed suffix, if_neg fun wrong => different wrong.1]
  · rw [lookup?_assign_suffix backed suffix]
    simp

/-- A name that an inner frame has is not written in the root. -/
theorem assign_one_binding_shadowed :
    let root := Heap.newRoot {} (.ofEntries [("x", .null), ("y", .null)])
    let child := root.2.newChild root.1 (.ofEntries [("x", .undefined)])
    let after := child.2.assign child.1 "x" (.boolean true)
    after.lookup? child.1 "x" = some (.boolean true) ∧ after.lookup? root.1 "x" = some .null ∧
      after.lookup? child.1 "y" = some .null := by
  intro root child after
  have backed : child.2.Backed child.1 := (backed_newRoot _ _).newChild _
  rcases assign_one_binding backed "x" (.boolean true) with
    ⟨inner, owner, outer, parts, -, before, -, -, -, found, around⟩
  have inRoot := (around root.1 (by decide)).2.1
  have inChild := (around child.1 List.suffix_rfl).1 "y" (by decide)
  have isChild : owner = child.1.inner := by
    cases inner with
    | nil => exact (List.cons.inj parts).1.symm
    | cons frame inner =>
        cases (List.cons.inj parts).1
        exact absurd (before _ (.head _)) (by decide)
  rw [if_neg (by rw [isChild]; decide)] at inRoot
  exact ⟨found, inRoot.trans rfl, inChild.trans rfl⟩

end Heap

end ExprScript
