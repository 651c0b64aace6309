import ExprScript.Proofs.Equality
import ExprScript.Proofs.Growth
import ExprScript.Proofs.Number.Signed
import ExprScript.Proofs.Outcome
import ExprScript.Proofs.RecordEntries
import ExprScript.Shell.Document
import ExprScript.Shell.Render

/-! # Documents on the heap

The value of a document has arrays and objects of its own, each of which is made
after its parts. So no container is inside of itself, and the value is shown as
the whole text of the document. Two values of one document are equal in structure.
-/

namespace ExprScript

/-! ## Documents and their values -/

namespace Document

mutual

/-- Whole numbers have at most 64 bits, other numbers are finite, and no object has
two members of one name. -/
def Valid : Document → Prop
  | .null | .boolean _ | .string _ => True
  | .integer value => value.natAbs < 2 ^ 64
  | .fraction value => value.isFinite = true
  | .array items => ItemsValid items
  | .object members => (members.map (·.1)).Nodup ∧ MembersValid members

def ItemsValid : List Document → Prop
  | [] => True
  | item :: items => item.Valid ∧ ItemsValid items

def MembersValid : List (String × Document) → Prop
  | [] => True
  | (_, member) :: members => member.Valid ∧ MembersValid members

end

def NumberHeld (number : Float) (value : Value) : Prop :=
  ∃ other, value = .number other ∧ (other == number) = true

mutual

/-- The value is the document. Its arrays and objects are on the heap, before the
places `arrays` and `objects`, and every container comes after those inside of it. -/
def HeldBy (heap : Heap) : Document → Nat → Nat → Value → Prop
  | .null, _, _, value => value = .null
  | .boolean flag, _, _, value => value = .boolean flag
  | .integer whole, _, _, value => NumberHeld (Float.ofInt whole) value
  | .fraction number, _, _, value => NumberHeld number value
  | .string text, _, _, value => value = .string text
  | .array items, arrays, objects, value => ∃ ref values, value = .array ref ∧
      ref.index < arrays ∧ heap.arrays[ref.index]? = some (.ofList values) ∧
      ItemsHeldBy heap items ref.index objects values
  | .object members, arrays, objects, value => ∃ ref record, value = .object ref ∧
      ref.index < objects ∧ heap.objects[ref.index]? = some record ∧
      MembersHeldBy heap members arrays ref.index record.entries

def ItemsHeldBy (heap : Heap) : List Document → Nat → Nat → List Value → Prop
  | [], _, _, values => values = []
  | item :: items, arrays, objects, values => ∃ value others, values = value :: others ∧
      item.HeldBy heap arrays objects value ∧ ItemsHeldBy heap items arrays objects others

def MembersHeldBy (heap : Heap) :
    List (String × Document) → Nat → Nat → List (String × Value) → Prop
  | [], _, _, entries => entries = []
  | (name, member) :: members, arrays, objects, entries => ∃ value others,
      entries = (name, value) :: others ∧ member.HeldBy heap arrays objects value ∧
      MembersHeldBy heap members arrays objects others

end

mutual

/-- What is held stays held, and later places lie before later bounds. -/
theorem HeldBy.mono {heap later : Heap} (grows : heap.Grows later) :
    ∀ (document : Document) {arrays objects arrays' objects' : Nat} {value : Value},
      arrays ≤ arrays' → objects ≤ objects' → document.HeldBy heap arrays objects value →
        document.HeldBy later arrays' objects' value
  | .null, _, _, _, _, _, _, _, held => held
  | .boolean _, _, _, _, _, _, _, _, held => held
  | .integer _, _, _, _, _, _, _, _, held => held
  | .fraction _, _, _, _, _, _, _, _, held => held
  | .string _, _, _, _, _, _, _, _, held => held
  | .array items, _, _, _, _, _, wider, wider', ⟨ref, values, equal, before, found, held⟩ =>
      ⟨ref, values, equal, Nat.lt_of_lt_of_le before wider, grows.arrays _ _ found,
        ItemsHeldBy.mono grows items (Nat.le_refl _) wider' held⟩
  | .object members, _, _, _, _, _, wider, wider', ⟨ref, record, equal, before, found, held⟩ =>
      ⟨ref, record, equal, Nat.lt_of_lt_of_le before wider', grows.objects _ _ found,
        MembersHeldBy.mono grows members wider (Nat.le_refl _) held⟩

theorem ItemsHeldBy.mono {heap later : Heap} (grows : heap.Grows later) :
    ∀ (items : List Document) {arrays objects arrays' objects' : Nat} {values : List Value},
      arrays ≤ arrays' → objects ≤ objects' → ItemsHeldBy heap items arrays objects values →
        ItemsHeldBy later items arrays' objects' values
  | [], _, _, _, _, _, _, _, held => held
  | item :: items, _, _, _, _, _, wider, wider', ⟨value, others, equal, first, held⟩ =>
      ⟨value, others, equal, HeldBy.mono grows item wider wider' first,
        ItemsHeldBy.mono grows items wider wider' held⟩

theorem MembersHeldBy.mono {heap later : Heap} (grows : heap.Grows later) :
    ∀ (members : List (String × Document)) {arrays objects arrays' objects' : Nat}
      {entries : List (String × Value)}, arrays ≤ arrays' → objects ≤ objects' →
        MembersHeldBy heap members arrays objects entries →
          MembersHeldBy later members arrays' objects' entries
  | [], _, _, _, _, _, _, _, held => held
  | (_, member) :: members, _, _, _, _, _, wider, wider', ⟨value, others, equal, first, held⟩ =>
      ⟨value, others, equal, HeldBy.mono grows member wider wider' first,
        MembersHeldBy.mono grows members wider wider' held⟩

end

/-! ## Creating the value -/

def Held (document : Document) (heap : Heap) (value : Value) : Prop :=
  document.HeldBy heap heap.arrays.size heap.objects.size value

def ItemsHeld (items : List Document) (heap : Heap) (values : List Value) : Prop :=
  ItemsHeldBy heap items heap.arrays.size heap.objects.size values

def MembersHeld (members : List (String × Document)) (heap : Heap)
    (entries : List (String × Value)) : Prop :=
  MembersHeldBy heap members heap.arrays.size heap.objects.size entries

theorem Held.grows {document : Document} {heap later : Heap} {value : Value}
    (held : document.Held heap value) (grows : heap.Grows later) : document.Held later value :=
  HeldBy.mono grows document grows.arrays_size_le grows.objects_size_le held

theorem ItemsHeld.grows {items : List Document} {heap later : Heap} {values : List Value}
    (held : ItemsHeld items heap values) (grows : heap.Grows later) :
    ItemsHeld items later values :=
  ItemsHeldBy.mono grows items grows.arrays_size_le grows.objects_size_le held

theorem MembersHeld.grows {members : List (String × Document)} {heap later : Heap}
    {entries : List (String × Value)} (held : MembersHeld members heap entries)
    (grows : heap.Grows later) : MembersHeld members later entries :=
  MembersHeldBy.mono grows members grows.arrays_size_le grows.objects_size_le held

end Document

/-- The action succeeds without a change to any container, and its result is held by
the heap after it. -/
def Creates {α : Type} (action : Eval α) (before : World) (held : Heap → α → Prop) : Prop :=
  Achieves action before fun result after =>
    before.heap.Grows after.heap ∧ held after.heap result

namespace Creates

variable {α β : Type} {before : World} {held : Heap → α → Prop}

theorem pure {result : α} (holds : held before.heap result) :
    Creates (Pure.pure result) before held :=
  Achieves.pure ⟨.refl _, holds⟩

theorem bind {action : Eval α} {next : α → Eval β} {held' : Heap → β → Prop}
    (creates : Creates action before held)
    (later : ∀ result after, before.heap.Grows after.heap → held after.heap result →
      Creates (next result) after held') : Creates (action >>= next) before held' := by
  apply Achieves.bind
  apply Achieves.mono creates
  rintro result after ⟨grows, holds⟩
  apply Achieves.mono (later result after grows holds)
  rintro final last ⟨grows', holds'⟩
  exact ⟨grows.trans grows', holds'⟩

theorem mono {action : Eval α} {wider : Heap → α → Prop} (creates : Creates action before held)
    (within : ∀ heap result, before.heap.Grows heap → held heap result → wider heap result) :
    Creates action before wider := by
  apply Achieves.mono creates
  rintro result after ⟨grows, holds⟩
  exact ⟨grows, within _ _ grows holds⟩

end Creates

namespace Document

variable {before : World}

theorem newArray_creates {items : List Document} {values : List Value}
    (held : ItemsHeld items before.heap values) :
    Creates (Eval.newArray values) before (Document.array items).Held := by
  have grows := Heap.Grows.newArray before.heap (.ofList values)
  refine ⟨_, _, rfl, grows, ⟨before.heap.arrays.size⟩, values, rfl, ?_, ?_, ?_⟩
  · exact Nat.lt_of_lt_of_eq (Nat.lt_succ_self _) (Array.size_push _).symm
  · exact Array.getElem?_push_size
  · exact ItemsHeldBy.mono grows items (Nat.le_refl _) (Nat.le_refl _) held

theorem newObject_creates {members : List (String × Document)} {record : Record}
    (held : MembersHeld members before.heap record.entries) :
    Creates (Eval.newObject record) before (Document.object members).Held := by
  have grows := Heap.Grows.newObject before.heap record
  refine ⟨_, _, rfl, grows, ⟨before.heap.objects.size⟩, record, rfl, ?_, ?_, ?_⟩
  · exact Nat.lt_of_lt_of_eq (Nat.lt_succ_self _) (Array.size_push _).symm
  · exact Array.getElem?_push_size
  · exact MembersHeldBy.mono grows members (Nat.le_refl _) (Nat.le_refl _) held

theorem MembersHeldBy.keys {heap : Heap} {members : List (String × Document)}
    {arrays objects : Nat} {entries : List (String × Value)}
    (held : MembersHeldBy heap members arrays objects entries) :
    entries.map (·.1) = members.map (·.1) := by
  induction members generalizing entries with
  | nil => rw [show entries = [] from held]; rfl
  | cons member members induction =>
      rcases member with ⟨name, member⟩
      rcases held with ⟨value, others, rfl, -, later⟩
      rw [List.map_cons, List.map_cons, induction later]

theorem entries_ofEntries {heap : Heap} {members : List (String × Document)}
    {entries : List (String × Value)} (distinct : (members.map (·.1)).Nodup)
    (held : MembersHeld members heap entries) : (Record.ofEntries entries).entries = entries := by
  apply Record.entries_setAll
  rw [List.nil_append, MembersHeldBy.keys held]
  exact distinct

theorem numberHeld_self {number : Float} (finite : number.isFinite = true) :
    NumberHeld number (.number number) :=
  ⟨number, rfl, (Number.beq_self_iff number).mpr (Number.not_isNaN finite)⟩

mutual

/-- A document has a value, and containers are only added for it. -/
theorem toValue_creates : ∀ (document : Document) (before : World), document.Valid →
    Creates document.toValue before document.Held
  | .null, _, _ => .pure rfl
  | .boolean _, _, _ => .pure rfl
  | .integer _, _, valid => .pure (numberHeld_self (Number.isFinite_ofInt valid))
  | .fraction _, _, valid => .pure (numberHeld_self valid)
  | .string _, _, _ => .pure rfl
  | .array items, before, valid =>
      .bind (itemValues_creates items before valid) fun _ _ _ held => newArray_creates held
  | .object members, before, valid => by
      refine .bind (memberValues_creates members before valid.2) fun entries after _ held => ?_
      apply newObject_creates
      rwa [entries_ofEntries valid.1 held]

theorem itemValues_creates : ∀ (items : List Document) (before : World), ItemsValid items →
    Creates (itemValues items) before (ItemsHeld items)
  | [], _, _ => .pure rfl
  | item :: items, before, valid =>
      .bind (toValue_creates item before valid.1) fun value after _ first =>
        .bind (itemValues_creates items after valid.2) fun values _ grows held =>
          .pure ⟨value, values, rfl, first.grows grows, held⟩

theorem memberValues_creates : ∀ (members : List (String × Document)) (before : World),
    MembersValid members → Creates (memberValues members) before (MembersHeld members)
  | [], _, _ => .pure rfl
  | (_, member) :: members, before, valid =>
      .bind (toValue_creates member before valid.1) fun value after _ first =>
        .bind (memberValues_creates members after valid.2) fun entries _ grows held =>
          .pure ⟨value, entries, rfl, first.grows grows, held⟩

end

/-! ## Showing the value -/

mutual

/-- The text that a document is shown as. -/
def text : Document → String
  | .null => "null"
  | .boolean value => if value then "true" else "false"
  | .integer value => Number.toText (Float.ofInt value)
  | .fraction value => Number.toText value
  | .string value => Text.quoteJson value
  | .array items => printBracketed (itemTexts items) false
  | .object members => printBraced (memberTexts members)

def itemTexts : List Document → List String
  | [] => []
  | item :: items => item.text :: itemTexts items

def memberTexts : List (String × Document) → List String
  | [] => []
  | (name, member) :: members =>
    (Text.quoteJson name ++ ": " ++ member.text) :: memberTexts members

end

structure Behind (arrays objects : Nat) (enclosing : List Container) : Prop where
  array : ∀ ref : ArrayRef, .array ref ∈ enclosing → arrays ≤ ref.index
  object : ∀ ref : ObjectRef, .object ref ∈ enclosing → objects ≤ ref.index

namespace Behind

variable {arrays objects : Nat} {enclosing : List Container}

theorem enterArray (behind : Behind arrays objects enclosing) {ref : ArrayRef}
    (before : ref.index < arrays) : Behind ref.index objects (.array ref :: enclosing) := by
  refine ⟨fun other member => ?_, fun other member => ?_⟩
  · rcases List.mem_cons.mp member with equal | member
    · cases equal
      exact Nat.le_refl _
    · exact Nat.le_trans (Nat.le_of_lt before) (behind.array other member)
  · rcases List.mem_cons.mp member with equal | member
    · cases equal
    · exact behind.object other member

theorem enterObject (behind : Behind arrays objects enclosing) {ref : ObjectRef}
    (before : ref.index < objects) : Behind arrays ref.index (.object ref :: enclosing) := by
  refine ⟨fun other member => ?_, fun other member => ?_⟩
  · rcases List.mem_cons.mp member with equal | member
    · cases equal
    · exact behind.array other member
  · rcases List.mem_cons.mp member with equal | member
    · cases equal
      exact Nat.le_refl _
    · exact Nat.le_trans (Nat.le_of_lt before) (behind.object other member)

theorem not_contains_array (behind : Behind arrays objects enclosing) {ref : ArrayRef}
    (before : ref.index < arrays) : enclosing.contains (.array ref) = false := by
  rw [List.contains_eq_mem, decide_eq_false_iff_not]
  exact fun member => Nat.not_lt.mpr (behind.array ref member) before

theorem not_contains_object (behind : Behind arrays objects enclosing) {ref : ObjectRef}
    (before : ref.index < objects) : enclosing.contains (.object ref) = false := by
  rw [List.contains_eq_mem, decide_eq_false_iff_not]
  exact fun member => Nat.not_lt.mpr (behind.object ref member) before

end Behind

theorem render_numberHeld {number : Float} {value : Value} (held : NumberHeld number value)
    (heap : Heap) (depth : Nat) (enclosing : List Container) :
    heap.renderWithin depth enclosing value = Number.toText number := by
  rcases held with ⟨other, rfl, equal⟩
  rw [← Number.toText_of_beq equal]
  cases depth <;> rfl

mutual

/-- A value that is held by the heap is shown as the text of its document: every
container that is entered lies before all that it is inside of. -/
theorem renderWithin_heldBy (heap : Heap) : ∀ (document : Document) {arrays objects : Nat}
    {value : Value}, document.HeldBy heap arrays objects value →
      ∀ {depth : Nat} {enclosing : List Container}, Behind arrays objects enclosing →
        arrays + objects ≤ depth → heap.renderWithin depth enclosing value = document.text
  | .null, _, _, _, held, depth, _, _, _ => by
      cases held
      cases depth <;> rfl
  | .boolean _, _, _, _, held, depth, _, _, _ => by
      cases held
      cases depth <;> rfl
  | .integer _, _, _, _, held, _, _, _, _ => render_numberHeld held heap _ _
  | .fraction _, _, _, _, held, _, _, _, _ => render_numberHeld held heap _ _
  | .string _, _, _, _, held, depth, _, _, _ => by
      cases held
      cases depth <;> rfl
  | .array items, arrays, objects, _, ⟨ref, values, equal, before, found, held⟩, depth, enclosing,
      behind, enough => by
      have inner : ∀ {depth}, ref.index + objects ≤ depth → values.map (fun value =>
          heap.renderWithin depth (.array ref :: enclosing) value) = itemTexts items :=
        renderItems_heldBy heap items held (behind.enterArray before)
      have isList : (heap.array ref).toList = values := by
        rw [Heap.array, found, Option.getD_some, ArrayStore.toList_ofList]
      cases depth with
      | zero => omega
      | succ depth =>
          rw [equal, Heap.renderWithin, behind.not_contains_array before, isList,
            inner (by omega), text, printBracketed]
          simp
  | .object members, arrays, objects, _, ⟨ref, record, equal, before, found, held⟩, depth,
      enclosing, behind, enough => by
      have inner : ∀ {depth}, arrays + ref.index ≤ depth → record.entries.map
          (fun (key, value) => Text.quoteJson key ++ ": " ++
            heap.renderWithin depth (.object ref :: enclosing) value) = memberTexts members :=
        renderMembers_heldBy heap members held (behind.enterObject before)
      have isRecord : heap.object ref = record := by rw [Heap.object, found, Option.getD_some]
      cases depth with
      | zero => omega
      | succ depth =>
          rw [equal, Heap.renderWithin, behind.not_contains_object before, isRecord, text,
            ← @inner depth (by omega)]
          cases record.entries with
          | nil => rfl
          | cons entry entries => rfl

theorem renderItems_heldBy (heap : Heap) : ∀ (items : List Document) {arrays objects : Nat}
    {values : List Value}, ItemsHeldBy heap items arrays objects values →
      ∀ {enclosing : List Container}, Behind arrays objects enclosing →
        ∀ {depth : Nat}, arrays + objects ≤ depth →
          values.map (fun value => heap.renderWithin depth enclosing value) = itemTexts items
  | [], _, _, _, held, _, _, _, _ => by
      cases held
      rfl
  | item :: items, _, _, _, ⟨value, others, equal, first, held⟩, _, behind, _, enough => by
      rw [equal, List.map_cons, renderWithin_heldBy heap item first behind enough,
        renderItems_heldBy heap items held behind enough, itemTexts]

theorem renderMembers_heldBy (heap : Heap) : ∀ (members : List (String × Document))
    {arrays objects : Nat} {entries : List (String × Value)},
      MembersHeldBy heap members arrays objects entries →
        ∀ {enclosing : List Container}, Behind arrays objects enclosing →
          ∀ {depth : Nat}, arrays + objects ≤ depth → entries.map (fun (key, value) =>
            Text.quoteJson key ++ ": " ++ heap.renderWithin depth enclosing value) =
              memberTexts members
  | [], _, _, _, held, _, _, _, _ => by
      cases held
      rfl
  | (_, member) :: members, _, _, _, ⟨value, others, equal, first, held⟩, _, behind, _,
      enough => by
      rw [equal, List.map_cons, renderMembers_heldBy heap members held behind enough, memberTexts,
        ← renderWithin_heldBy heap member first behind enough]

end

theorem Held.render {document : Document} {heap : Heap} {value : Value}
    (held : document.Held heap value) : heap.render value = document.text :=
  renderWithin_heldBy heap document held ⟨nofun, nofun⟩ (Nat.le_succ _)

/-! ## Two values of one document -/

theorem ItemsHeldBy.item {heap : Heap} {items : List Document} {arrays objects : Nat}
    {values : List Value} (held : ItemsHeldBy heap items arrays objects values) :
    values.length = items.length ∧ ∀ (index : Nat) item value, items[index]? = some item →
      values[index]? = some value → item.HeldBy heap arrays objects value := by
  induction items generalizing values with
  | nil =>
      cases held
      exact ⟨rfl, nofun⟩
  | cons first items induction =>
      rcases held with ⟨value, others, rfl, held, later⟩
      rcases induction later with ⟨length, each⟩
      refine ⟨by rw [List.length_cons, List.length_cons, length], ?_⟩
      intro index item other found found'
      cases index with
      | zero =>
          cases found
          cases found'
          exact held
      | succ index => exact each index item other found found'

theorem MembersHeldBy.lookup {heap : Heap} {members : List (String × Document)}
    {arrays objects : Nat} {entries : List (String × Value)}
    (held : MembersHeldBy heap members arrays objects entries) {key : String} {value : Value}
    (found : entries.lookup key = some value) :
    ∃ member, members.lookup key = some member ∧ member.HeldBy heap arrays objects value := by
  induction members generalizing entries with
  | nil =>
      cases held
      cases found
  | cons member members induction =>
      rcases member with ⟨name, member⟩
      rcases held with ⟨first, others, rfl, held, later⟩
      rw [List.lookup_cons] at found ⊢
      cases same : key == name with
      | true =>
          rw [same] at found
          cases found
          exact ⟨member, rfl, held⟩
      | false =>
          rw [same] at found
          exact induction later found

def HeldAlike (heap : Heap) (first second : Value) : Prop :=
  ∃ (document : Document) (arrays objects arrays' objects' : Nat),
    document.HeldBy heap arrays objects first ∧ document.HeldBy heap arrays' objects' second

theorem matches_numberHeld {heap : Heap} {related : Value → Value → Prop} {number : Float}
    {first second : Value} (held : NumberHeld number first) (held' : NumberHeld number second) :
    heap.Matches related first second := by
  rcases held with ⟨one, rfl, equal⟩
  rcases held' with ⟨other, rfl, equal'⟩
  exact .number (Number.beq_trans equal (Number.beq_symm equal'))

theorem HeldAlike.matches {heap : Heap} {first second : Value}
    (alike : HeldAlike heap first second) : heap.Matches (HeldAlike heap) first second := by
  rcases alike with ⟨document, arrays, objects, arrays', objects', held, held'⟩
  cases document with
  | null =>
      cases held
      cases held'
      exact .null
  | boolean value =>
      cases held
      cases held'
      exact .boolean value
  | string value =>
      cases held
      cases held'
      exact .string value
  | integer value => exact matches_numberHeld held held'
  | fraction value => exact matches_numberHeld held held'
  | array items =>
      rcases held with ⟨ref, values, rfl, -, found, held⟩
      rcases held' with ⟨ref', values', rfl, -, found', held'⟩
      rcases held.item with ⟨length, each⟩
      rcases held'.item with ⟨length', each'⟩
      have store : heap.array ref = .ofList values := by rw [Heap.array, found, Option.getD_some]
      have store' : heap.array ref' = .ofList values' := by
        rw [Heap.array, found', Option.getD_some]
      refine .array ?_ ?_
      · rw [store, store', ArrayStore.length_ofList, ArrayStore.length_ofList, length, length']
      · intro index inside
        rw [store, ArrayStore.length_ofList] at inside
        have inside' : index < values'.length := by omega
        have isItem : index < items.length := by omega
        rw [store, store', ArrayStore.get_ofList, ArrayStore.get_ofList,
          List.getElem?_eq_getElem inside, List.getElem?_eq_getElem inside']
        exact ⟨items[index], _, _, _, _,
          each index _ _ (List.getElem?_eq_getElem isItem) (List.getElem?_eq_getElem inside),
          each' index _ _ (List.getElem?_eq_getElem isItem) (List.getElem?_eq_getElem inside')⟩
  | object members =>
      rcases held with ⟨ref, record, rfl, -, found, held⟩
      rcases held' with ⟨ref', record', rfl, -, found', held'⟩
      have isRecord : heap.object ref = record := by rw [Heap.object, found, Option.getD_some]
      have isRecord' : heap.object ref' = record' := by rw [Heap.object, found', Option.getD_some]
      refine .object ?_ ?_
      · intro key
        rw [isRecord, isRecord', Record.keys, Record.keys, held.keys, held'.keys]
      · intro key value other found found'
        rw [isRecord] at found
        rw [isRecord'] at found'
        rcases held.lookup found with ⟨member, known, held⟩
        rcases held'.lookup found' with ⟨member', known', held'⟩
        cases known.symm.trans known'
        exact ⟨member, _, _, _, _, held, held'⟩

theorem Held.structuralEqual {document : Document} {heap : Heap} {first second : Value}
    (held : document.Held heap first) (held' : document.Held heap second) :
    heap.structuralEqual first second = true := by
  apply (Heap.structuralEqual_iff_alike ..).mpr
  exact Heap.Alike.of_matching (fun _ _ => HeldAlike.matches) ⟨document, _, _, _, _, held, held'⟩

end Document

end ExprScript
