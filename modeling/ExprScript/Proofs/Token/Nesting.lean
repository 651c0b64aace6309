import ExprScript.Proofs.Token.Sequence

/-! # The nesting of braces and templates

The scanner decides between a closing brace and template text from the braces that
are open. Which ones are open can be told from the tokens alone: a token may close
the innermost brace, and it may open another one. A token that resumes a template
closes the hole of an earlier one, and what lies between the two is balanced.
-/

namespace ExprScript

namespace TokenKind

def opensHole : TokenKind → Bool
  | .templateHead | .templateMiddle => true
  | _ => false

def opens? : TokenKind → Option Brace
  | .punctuator .leftBrace => some .block
  | .templateHead | .templateMiddle => some .hole
  | _ => none

def closes : TokenKind → Bool
  | .punctuator .rightBrace | .templateMiddle | .templateTail => true
  | _ => false

theorem closes_of_resumesTemplate {kind : TokenKind} (resumes : kind.resumesTemplate = true) :
    kind.closes = true := by
  cases kind with
  | templateMiddle | templateTail => rfl
  | _ => cases resumes

theorem opens?_of_opensHole {kind : TokenKind} (opens : kind.opensHole = true) :
    kind.opens? = some .hole := by
  cases kind with
  | templateHead | templateMiddle => rfl
  | _ => cases opens

theorem opensHole_of_opens? {kind : TokenKind} (opens : kind.opens? = some .hole) :
    kind.opensHole = true := by
  cases kind with
  | punctuator mark => cases mark <;> cases opens
  | templateHead | templateMiddle => rfl
  | _ => cases opens

theorem resumesTemplate_or_eq {kind : TokenKind} (closes : kind.closes = true) :
    kind.resumesTemplate = true ∨ kind = .punctuator .rightBrace := by
  cases kind with
  | punctuator mark => cases mark <;> first | exact .inr rfl | cases closes
  | templateMiddle | templateTail => exact .inl rfl
  | _ => cases closes

end TokenKind

structure OpenBrace where
  index : Nat
  brace : Brace

def noteToken (index : Nat) (kind : TokenKind) (opened : List OpenBrace) : List OpenBrace :=
  (kind.opens?.map (OpenBrace.mk index)).toList ++ if kind.closes then opened.tail else opened

/-- The braces that are open in front of the token at an index, the innermost first. -/
def openBraces (kinds : List TokenKind) : Nat → List OpenBrace
  | 0 => []
  | index + 1 =>
    match kinds[index]? with
    | none => openBraces kinds index
    | some kind => noteToken index kind (openBraces kinds index)

section

variable {kinds : List TokenKind} {index : Nat} {kind : TokenKind}

theorem openBraces_succ (found : kinds[index]? = some kind) :
    openBraces kinds (index + 1) = noteToken index kind (openBraces kinds index) := by
  rw [openBraces, found]

theorem openBraces_succ_none (missing : kinds[index]? = none) :
    openBraces kinds (index + 1) = openBraces kinds index := by
  rw [openBraces, missing]

theorem brace_noteToken (index : Nat) (kind : TokenKind) (opened : List OpenBrace) :
    (noteToken index kind opened).map (·.brace) = kind.opens?.toList ++
      if kind.closes then (opened.map (·.brace)).tail else opened.map (·.brace) := by
  rw [noteToken, List.map_append, ← List.map_tail, apply_ite (List.map OpenBrace.brace)]
  congr 1
  cases kind.opens? <;> rfl

/-- A brace that is open after a token was opened by it, or it was open before. -/
theorem mem_noteToken {entry : OpenBrace} {opened : List OpenBrace}
    (member : entry ∈ noteToken index kind opened) :
    entry.index = index ∧ kind.opens? = some entry.brace ∧
        (noteToken index kind opened).head? = some entry ∨
      (entry ∈ if kind.closes then opened.tail else opened) := by
  unfold noteToken at member ⊢
  cases opens : kind.opens? with
  | none =>
      rw [opens] at member
      exact .inr member
  | some brace =>
      rw [opens] at member
      rcases List.mem_cons.mp member with rfl | member
      · exact .inl ⟨rfl, rfl, rfl⟩
      · exact .inr member

theorem mem_of_mem_rest {entry : OpenBrace} {opened : List OpenBrace}
    (member : entry ∈ if kind.closes then opened.tail else opened) : entry ∈ opened := by
  split at member
  · exact List.mem_of_mem_tail member
  · exact member

theorem opened_by {entry : OpenBrace} (member : entry ∈ openBraces kinds index) :
    entry.index < index ∧ (openBraces kinds (entry.index + 1)).head? = some entry ∧
      ∃ kind, kinds[entry.index]? = some kind ∧ kind.opens? = some entry.brace := by
  induction index with
  | zero => cases member
  | succ index induction =>
      cases found : kinds[index]? with
      | none =>
          rw [openBraces_succ_none found] at member
          rcases induction member with ⟨before, opened⟩
          exact ⟨by omega, opened⟩
      | some kind =>
          rw [openBraces_succ found] at member
          rcases mem_noteToken member with ⟨here, opens, head⟩ | earlier
          · refine ⟨by omega, ?_, kind, by rw [here, found], opens⟩
            rw [here, openBraces_succ found, head]
          · rcases induction (mem_of_mem_rest earlier) with ⟨before, opened⟩
            exact ⟨by omega, opened⟩

theorem pairwise_openBraces (kinds : List TokenKind) (index : Nat) :
    (openBraces kinds index).Pairwise fun inner outer => outer.index < inner.index := by
  induction index with
  | zero => exact .nil
  | succ index induction =>
      cases found : kinds[index]? with
      | none => rwa [openBraces_succ_none found]
      | some kind =>
          rw [openBraces_succ found, noteToken]
          have rest : (if kind.closes then (openBraces kinds index).tail
              else openBraces kinds index).Pairwise fun inner outer => outer.index < inner.index := by
            split
            · exact induction.tail
            · exact induction
          cases kind.opens? with
          | none => exact rest
          | some brace => exact .cons (fun _ member => (opened_by (mem_of_mem_rest member)).1) rest

theorem openBraces_suffix {entry : OpenBrace} (member : entry ∈ openBraces kinds index) :
    ∀ middle, entry.index < middle → middle ≤ index →
      openBraces kinds (entry.index + 1) <:+ openBraces kinds middle := by
  induction index with
  | zero => cases member
  | succ index induction =>
      intro middle after before
      -- Only the last token has to be looked at; the others are covered by induction.
      have step : entry ∈ openBraces kinds index →
          openBraces kinds (entry.index + 1) <:+ openBraces kinds (index + 1) →
          openBraces kinds (entry.index + 1) <:+ openBraces kinds middle := by
        intro earlier last
        by_cases isLast : middle = index + 1
        · rwa [isLast]
        · exact induction earlier middle after (by omega)
      cases found : kinds[index]? with
      | none =>
          rw [openBraces_succ_none found] at member
          refine step member ?_
          rw [openBraces_succ_none found]
          exact induction member index (opened_by member).1 (Nat.le_refl _)
      | some kind =>
          have whole := openBraces_succ found
          rw [whole] at member
          rcases mem_noteToken member with ⟨here, -, -⟩ | remains
          · rw [show middle = entry.index + 1 by omega]
          have earlier := mem_of_mem_rest remains
          refine step earlier ?_
          have suffix := induction earlier index (opened_by earlier).1 (Nat.le_refl _)
          rw [whole, noteToken]
          apply List.IsSuffix.trans _ (List.suffix_append _ _)
          split
          · next closes =>
              rw [if_pos closes] at remains
              rcases List.head?_eq_some_iff.mp (opened_by earlier).2.1 with ⟨outer, opened⟩
              rcases suffix with ⟨inner, parts⟩
              cases inner with
              | nil =>
                  -- The brace cannot be the one that is closed, as it is still open.
                  have sorted := pairwise_openBraces kinds index
                  rw [← parts, opened, List.nil_append] at sorted remains
                  have wrong := List.rel_of_pairwise_cons sorted remains
                  omega
              | cons first inner =>
                  rw [← parts]
                  exact List.suffix_append inner _
          · exact suffix

/-! ## Matching tokens -/

/-- The index of the token that has opened the innermost brace. -/
def opener (kinds : List TokenKind) (index : Nat) : Nat :=
  ((openBraces kinds index).head?.map (·.index)).getD 0

/-- The token at an index resumes a template. -/
def Resumes (kinds : List TokenKind) (index : Nat) : Prop :=
  ∃ kind, kinds[index]? = some kind ∧ kind.resumesTemplate = true

def StartsHole (kinds : List TokenKind) (index : Nat) : Prop :=
  ∃ kind, kinds[index]? = some kind ∧ kind.opensHole = true

def between (kinds : List TokenKind) (start stop : Nat) : List TokenKind :=
  (kinds.take stop).drop (start + 1)

/-- Tokens close holes only where the innermost brace is one, and blocks only where
it is not. -/
structure Disciplined (kinds : List TokenKind) : Prop where
  inHole : ∀ index, Resumes kinds index →
    ∃ entry, (openBraces kinds index).head? = some entry ∧ entry.brace = .hole
  notInHole : ∀ index, kinds[index]? = some (.punctuator .rightBrace) →
    ∀ entry, (openBraces kinds index).head? = some entry → entry.brace ≠ .hole

/-- Nothing has changed since the innermost brace was opened, as far as it can be
seen from the open braces. -/
theorem openBraces_of_head {entry : OpenBrace}
    (head : (openBraces kinds index).head? = some entry) :
    openBraces kinds (entry.index + 1) = openBraces kinds index := by
  have member := List.mem_of_mem_head? head
  rcases opened_by member with ⟨before, opened, -⟩
  rcases List.head?_eq_some_iff.mp opened with ⟨outer, parts⟩
  rcases openBraces_suffix member index before (Nat.le_refl _) with ⟨inner, whole⟩
  cases inner with
  | nil => exact whole
  | cons first inner =>
      have sorted := pairwise_openBraces kinds index
      rw [← whole] at head sorted
      cases head
      have wrong := List.rel_of_pairwise_cons sorted
        (List.mem_append_right inner (parts ▸ List.mem_cons_self ..))
      exact absurd wrong (Nat.lt_irrefl _)

theorem not_open_after {entry : OpenBrace} (found : kinds[index]? = some kind)
    (closes : kind.closes = true) (head : (openBraces kinds index).head? = some entry) :
    entry ∉ openBraces kinds (index + 1) := by
  intro member
  have before := (opened_by (List.mem_of_mem_head? head)).1
  rw [openBraces_succ found] at member
  rcases mem_noteToken member with ⟨here, -, -⟩ | remains
  · omega
  · rw [if_pos closes] at remains
    rcases List.head?_eq_some_iff.mp head with ⟨outer, parts⟩
    have sorted := pairwise_openBraces kinds index
    rw [parts] at sorted remains
    exact absurd (List.rel_of_pairwise_cons sorted remains) (Nat.lt_irrefl _)

theorem closed_at {entry : OpenBrace} (isOpen : entry ∈ openBraces kinds index)
    (isClosed : entry ∉ openBraces kinds (index + 1)) :
    ∃ kind, kinds[index]? = some kind ∧ kind.closes = true ∧
      (openBraces kinds index).head? = some entry := by
  cases found : kinds[index]? with
  | none =>
      rw [openBraces_succ_none found] at isClosed
      exact absurd isOpen isClosed
  | some kind =>
      rw [openBraces_succ found, noteToken, List.mem_append, not_or] at isClosed
      split at isClosed
      · next closes =>
          refine ⟨kind, rfl, closes, ?_⟩
          cases opened : openBraces kinds index with
          | nil =>
              rw [opened] at isOpen
              cases isOpen
          | cons first outer =>
              rw [opened] at isOpen isClosed
              rcases List.mem_cons.mp isOpen with rfl | member
              · rfl
              · exact absurd member isClosed.2
      · exact absurd isOpen isClosed.2

theorem closed_between {entry : OpenBrace} {start stop : Nat} (order : start ≤ stop)
    (isOpen : entry ∈ openBraces kinds start) (isClosed : entry ∉ openBraces kinds stop) :
    ∃ middle, start ≤ middle ∧ middle < stop ∧ entry ∈ openBraces kinds middle ∧
      entry ∉ openBraces kinds (middle + 1) := by
  induction stop, order using Nat.le_induction with
  | base => exact absurd isOpen isClosed
  | succ stop order induction =>
      by_cases member : entry ∈ openBraces kinds stop
      · exact ⟨stop, order, Nat.lt_succ_self _, member, isClosed⟩
      · rcases induction member with ⟨middle, first, last, both⟩
        exact ⟨middle, first, Nat.lt_succ_of_lt last, both⟩

namespace Disciplined

variable (disciplined : Disciplined kinds)
include disciplined

theorem hole_of_resumes (resumes : Resumes kinds index) :
    ∃ entry, (openBraces kinds index).head? = some entry ∧ entry.brace = .hole ∧
      opener kinds index = entry.index ∧ entry ∉ openBraces kinds (index + 1) := by
  rcases disciplined.inHole index resumes with ⟨entry, head, isHole⟩
  rcases resumes with ⟨kind, found, resumes⟩
  refine ⟨entry, head, isHole, by rw [opener, head]; rfl, ?_⟩
  exact not_open_after found (TokenKind.closes_of_resumesTemplate resumes) head

theorem opener_startsHole (resumes : Resumes kinds index) :
    opener kinds index < index ∧ StartsHole kinds (opener kinds index) := by
  rcases disciplined.hole_of_resumes resumes with ⟨entry, head, isHole, isOpener, -⟩
  rcases opened_by (List.mem_of_mem_head? head) with ⟨before, -, kind, found, opens⟩
  rw [isOpener]
  rw [isHole] at opens
  exact ⟨before, kind, found, TokenKind.opensHole_of_opens? opens⟩

theorem opener_injective {first second : Nat} (resumes : Resumes kinds first)
    (resumes' : Resumes kinds second) (same : opener kinds first = opener kinds second) :
    first = second := by
  have ordered : ∀ {first second : Nat}, Resumes kinds first → Resumes kinds second →
      opener kinds first = opener kinds second → ¬ first < second := by
    intro first second resumes resumes' same order
    rcases disciplined.hole_of_resumes resumes with ⟨entry, head, -, isOpener, closed⟩
    rcases disciplined.hole_of_resumes resumes' with ⟨entry', head', -, isOpener', -⟩
    have index : entry'.index = entry.index := by rw [← isOpener, ← isOpener', same]
    rcases opened_by (List.mem_of_mem_head? head) with ⟨before, opened, -⟩
    have member := List.mem_of_mem_head? head'
    rcases opened_by member with ⟨-, opened', -⟩
    rw [index, opened] at opened'
    cases opened'
    have suffix := openBraces_suffix member (first + 1) (by omega) order
    exact closed (suffix.mem (List.mem_of_mem_head? opened))
  rcases Nat.lt_trichotomy first second with before | equal | after
  · exact absurd before (ordered resumes resumes' same)
  · exact equal
  · exact absurd after (ordered resumes' resumes same.symm)

theorem opener_lt_opener {inner : Nat} (resumes : Resumes kinds index)
    (after : opener kinds index < inner) (before : inner < index) (resumes' : Resumes kinds inner) :
    opener kinds index < opener kinds inner := by
  rcases disciplined.hole_of_resumes resumes with ⟨entry, head, -, isOpener, -⟩
  rcases disciplined.hole_of_resumes resumes' with ⟨entry', head', -, isOpener', closed⟩
  rw [isOpener] at after ⊢
  rw [isOpener']
  have member := List.mem_of_mem_head? head
  have opened := List.mem_of_mem_head? (opened_by member).2.1
  rcases openBraces_suffix member inner after (Nat.le_of_lt before) with ⟨front, whole⟩
  have sorted := pairwise_openBraces kinds inner
  rw [← whole] at sorted head'
  cases front with
  | nil =>
      -- The innermost brace would be the outer hole, which is still open later on.
      rw [List.nil_append, (opened_by member).2.1] at head'
      cases head'
      have suffix := openBraces_suffix member (inner + 1) (by omega) before
      exact absurd (suffix.mem opened) closed
  | cons first front =>
      cases head'
      exact List.rel_of_pairwise_cons sorted (List.mem_append_right front opened)

theorem exists_closer {inner : Nat} (resumes : Resumes kinds index)
    (after : opener kinds index < inner) (before : inner < index) (opens : StartsHole kinds inner) :
    ∃ closer, inner < closer ∧ closer < index ∧ Resumes kinds closer ∧
      opener kinds closer = inner := by
  rcases opens with ⟨kind, found, opens⟩
  rcases disciplined.hole_of_resumes resumes with ⟨entry, head, -, isOpener, -⟩
  rw [isOpener] at after
  have isOpen : ⟨inner, .hole⟩ ∈ openBraces kinds (inner + 1) := by
    rw [openBraces_succ found, noteToken, TokenKind.opens?_of_opensHole opens]
    exact List.mem_cons_self ..
  have isClosed : ⟨inner, .hole⟩ ∉ openBraces kinds index := by
    intro member
    rw [← openBraces_of_head head] at member
    have early := (opened_by member).1
    dsimp only at early
    omega
  rcases closed_between before isOpen isClosed with ⟨closer, start, stop, isOpen, isClosed⟩
  rcases closed_at isOpen isClosed with ⟨kind', found', closes, head'⟩
  refine ⟨closer, start, stop, ⟨kind', found', ?_⟩, by rw [opener, head']; rfl⟩
  rcases TokenKind.resumesTemplate_or_eq closes with resumes' | rfl
  · exact resumes'
  · exact absurd rfl (disciplined.notInHole closer found' _ head')

end Disciplined

/-! ## Balance -/

def blocks (opened : List OpenBrace) : Nat := opened.countP (·.brace == .block)

theorem blocks_append (inner outer : List OpenBrace) :
    blocks (inner ++ outer) = blocks inner + blocks outer :=
  List.countP_append ..

theorem blocks_opens (index : Nat) (kind : TokenKind) :
    blocks (kind.opens?.map (OpenBrace.mk index)).toList =
      [kind].count (.punctuator .leftBrace) := by
  cases kind with
  | punctuator mark => cases mark <;> rfl
  | _ => rfl

/-- One token changes the number of open blocks by the brace that it is, if some brace
is open at all. -/
theorem Disciplined.blocks_step (disciplined : Disciplined kinds)
    (found : kinds[index]? = some kind) (someOpen : openBraces kinds index ≠ []) :
    [kind].count (.punctuator .rightBrace) + blocks (openBraces kinds (index + 1)) =
      [kind].count (.punctuator .leftBrace) + blocks (openBraces kinds index) := by
  rw [openBraces_succ found, noteToken, blocks_append, blocks_opens]
  have rest : [kind].count (.punctuator .rightBrace) +
      blocks (if kind.closes then (openBraces kinds index).tail else openBraces kinds index) =
        blocks (openBraces kinds index) := by
    rcases List.exists_cons_of_ne_nil someOpen with ⟨first, outer, opened⟩
    have head : (openBraces kinds index).head? = some first := by rw [opened]; rfl
    have whole : blocks (openBraces kinds index) = blocks [first] + blocks outer := by
      rw [opened, ← blocks_append, List.singleton_append]
    by_cases closes : kind.closes = true
    · rw [if_pos closes, whole, opened, List.tail_cons, Nat.add_right_cancel_iff]
      rcases TokenKind.resumesTemplate_or_eq closes with resumes | rfl
      · rcases disciplined.inHole index ⟨kind, found, resumes⟩ with ⟨entry, head', isHole⟩
        cases head.symm.trans head'
        have noBrace : TokenKind.punctuator .rightBrace ≠ kind := by
          rintro rfl
          cases resumes
        rw [List.count_singleton, if_neg (by simpa using noBrace.symm)]
        simp [blocks, isHole]
      · have isBlock : first.brace = .block := by
          cases brace : first.brace with
          | block => rfl
          | hole => exact absurd brace (disciplined.notInHole index found first head)
        simp [blocks, isBlock]
    · have noBrace : kind ≠ .punctuator .rightBrace := by
        rintro rfl
        exact closes rfl
      rw [if_neg closes, List.count_singleton, if_neg (by simpa using noBrace), Nat.zero_add]
  omega

theorem between_succ {start stop : Nat} (order : start < stop) (found : kinds[stop]? = some kind) :
    between kinds start (stop + 1) = between kinds start stop ++ [kind] := by
  have within : stop < kinds.length := (List.getElem?_eq_some_iff.mp found).1
  rw [between, List.take_add_one, found, between]
  exact List.drop_append_of_le_length (by rw [List.length_take]; omega)

theorem between_self (start : Nat) : between kinds start (start + 1) = [] := by
  rw [between, List.drop_take_self]

/-- As long as a brace is open, the braces behind it account for the open blocks. -/
theorem Disciplined.count_between (disciplined : Disciplined kinds) {entry : OpenBrace}
    (within : index ≤ kinds.length) (isOpen : entry ∈ openBraces kinds index) {stop : Nat}
    (after : entry.index < stop) (before : stop ≤ index) :
    (between kinds entry.index stop).count (.punctuator .rightBrace) +
        blocks (openBraces kinds stop) =
      (between kinds entry.index stop).count (.punctuator .leftBrace) +
        blocks (openBraces kinds (entry.index + 1)) := by
  induction stop, after using Nat.le_induction with
  | base => rw [Nat.succ_eq_add_one, between_self, List.count_nil, List.count_nil]
  | succ stop after induction =>
      have found := List.getElem?_eq_getElem (show stop < kinds.length by omega)
      have suffix := openBraces_suffix isOpen stop after (by omega)
      have opened := List.mem_of_mem_head? (opened_by isOpen).2.1
      have step := disciplined.blocks_step found (List.ne_nil_of_mem (suffix.mem opened))
      have induction := induction (by omega)
      rw [between_succ after found, List.count_append, List.count_append]
      omega

/-- What lies between a token and its opener is balanced. -/
theorem Disciplined.balanced (disciplined : Disciplined kinds) (resumes : Resumes kinds index) :
    (∀ front, front <+: between kinds (opener kinds index) index →
      front.count (.punctuator .rightBrace) ≤ front.count (.punctuator .leftBrace)) ∧
    (between kinds (opener kinds index) index).count (.punctuator .rightBrace) =
      (between kinds (opener kinds index) index).count (.punctuator .leftBrace) := by
  rcases disciplined.hole_of_resumes resumes with ⟨entry, head, -, isOpener, -⟩
  rcases resumes with ⟨kind, found, -⟩
  have within : index < kinds.length := (List.getElem?_eq_some_iff.mp found).1
  have isOpen := List.mem_of_mem_head? head
  have before := (opened_by isOpen).1
  rw [isOpener]
  constructor
  · intro front isFront
    have length : front.length ≤ index - (entry.index + 1) := by
      have shorter := isFront.length_le
      rw [between, List.length_drop, List.length_take] at shorter
      omega
    have equal : front = between kinds entry.index (entry.index + 1 + front.length) := by
      have taken := List.prefix_iff_eq_take.mp isFront
      rw [between, List.drop_take, List.take_take, Nat.min_eq_left length] at taken
      rwa [between, List.drop_take, Nat.add_sub_cancel_left]
    have count := disciplined.count_between (Nat.le_of_lt within) isOpen
      (show entry.index < entry.index + 1 + front.length by omega) (by omega)
    have suffix := openBraces_suffix isOpen (entry.index + 1 + front.length) (by omega) (by omega)
    have more : blocks (openBraces kinds (entry.index + 1)) ≤
        blocks (openBraces kinds (entry.index + 1 + front.length)) := suffix.sublist.countP_le
    rw [← equal] at count
    omega
  · have count := disciplined.count_between (Nat.le_of_lt within) isOpen before (Nat.le_refl _)
    rw [openBraces_of_head head] at count
    omega

end

/-! ## The scanner -/

namespace Scanner

open Reader

theorem head_of_rightBrace {text : List Char}
    (found : punctuatorOf? text = some .rightBrace) : text.head? = some '\x7d' := by
  have starts := List.find?_some found
  simp only [Bool.and_eq_true, List.isPrefixOf_iff_prefix] at starts
  rcases starts.1 with ⟨rest, rfl⟩
  rfl

/-- A token changes the open braces as its kind tells. It resumes a template only in a
hole, and it is a right brace only outside of holes. -/
theorem Branch.braces {start : Position} {first : Char} {before after : Scanner} {lexeme : Lexeme}
    (branch : Branch start first before lexeme after) (head : before.cursor.peek? = some first) :
    after.braces = lexeme.1.opens?.toList ++
        (if lexeme.1.closes then before.braces.tail else before.braces) ∧
      (lexeme.1.resumesTemplate = true → before.braces.head? = some .hole) ∧
      (lexeme.1 = .punctuator .rightBrace → before.braces.head? ≠ some .hole) := by
  cases branch with
  | string | number => exact ⟨rfl, nofun, nofun⟩
  | @opening piece =>
      cases opens : piece.opensHole with
      | true => exact ⟨rfl, nofun, nofun⟩
      | false => exact ⟨rfl, nofun, nofun⟩
  | @resumption piece _ _ inHole =>
      cases opens : piece.opensHole with
      | true => exact ⟨(List.cons_head?_tail inHole).symm, fun _ => inHole, nofun⟩
      | false => exact ⟨rfl, fun _ => inHole, nofun⟩
  | name _ run =>
      rcases readName_kind _ _ _ _ run with isName | ⟨word, isName⟩
      · cases isName
        exact ⟨rfl, nofun, nofun⟩
      · cases isName
        exact ⟨rfl, nofun, nofun⟩
  | @punctuator mark cursor noHole found run =>
      refine ⟨?_, nofun, ?_⟩
      · cases mark <;> rfl
      · intro isBrace
        cases isBrace
        apply noHole
        have head' := head_of_rightBrace found
        rw [← Cursor.peek?, head] at head'
        exact Option.some.inj head'

variable {before last : Scanner} {tokens : List Token} {index : Nat}

theorem Scanned.at (scanned : Scanned before tokens last) (none : before.braces = [])
    (within : index ≤ tokens.length) :
    ∃ scanner, Scanned scanner (tokens.drop index) last ∧
      scanner.braces = (openBraces (tokens.map (·.kind)) index).map (·.brace) := by
  induction index with
  | zero => exact ⟨before, scanned, none⟩
  | succ index induction =>
      rcases induction (by omega) with ⟨scanner, scanned, braces⟩
      rw [List.drop_eq_getElem_cons within] at scanned
      cases scanned with
      | @token _ middle _ _ _ run notEnd later =>
          refine ⟨middle, later, ?_⟩
          rcases next_branch _ _ _ run notEnd with ⟨cursor, first, -, head, -, branch⟩
          have found : (tokens.map (·.kind))[index]? = some tokens[index].kind := by
            rw [List.getElem?_map, List.getElem?_eq_getElem within]
            rfl
          rw [(branch.braces head).1, braces, openBraces_succ found, brace_noteToken]

/-- What the scanner knows of a token from its open braces holds of the tokens. -/
theorem Scanned.token_at (scanned : Scanned before tokens last) (none : before.braces = [])
    {kind : TokenKind} (found : (tokens.map (·.kind))[index]? = some kind) :
    (kind.resumesTemplate = true →
        ((openBraces (tokens.map (·.kind)) index).map (·.brace)).head? = some .hole) ∧
      (kind = .punctuator .rightBrace →
        ((openBraces (tokens.map (·.kind)) index).map (·.brace)).head? ≠ some .hole) := by
  rw [List.getElem?_map, Option.map_eq_some_iff] at found
  rcases found with ⟨token, found, rfl⟩
  rcases List.getElem?_eq_some_iff.mp found with ⟨within, rfl⟩
  rcases scanned.at none (Nat.le_of_lt within) with ⟨scanner, scanned, braces⟩
  rw [List.drop_eq_getElem_cons within] at scanned
  cases scanned with
  | token run notEnd =>
      rcases next_branch _ _ _ run notEnd with ⟨cursor, first, -, head, -, branch⟩
      rw [← braces]
      exact (branch.braces head).2

theorem Scanned.disciplined (scanned : Scanned before tokens last) (none : before.braces = []) :
    Disciplined (tokens.map (·.kind)) := by
  constructor
  · rintro index ⟨kind, found, resumes⟩
    have head := (scanned.token_at none found).1 resumes
    rwa [List.head?_map, Option.map_eq_some_iff] at head
  · intro index found entry head isHole
    have noHole := (scanned.token_at none found).2 rfl
    rw [List.head?_map, head] at noHole
    exact noHole (congrArg some isHole)

end Scanner

/-- The tokens at two indices are the two ends of a hole: the first one opens it, the
braces between them are balanced, and the holes between them are opened and closed
between them. -/
structure ClosesHole (kinds : List TokenKind) (start stop : Nat) : Prop where
  order : start < stop
  starts : StartsHole kinds start
  front : ∀ front, front <+: between kinds start stop →
    front.count (.punctuator .rightBrace) ≤ front.count (.punctuator .leftBrace)
  total : (between kinds start stop).count (.punctuator .rightBrace) =
    (between kinds start stop).count (.punctuator .leftBrace)
  closers : ∀ inner, start < inner → inner < stop → Resumes kinds inner →
    start < opener kinds inner
  openers : ∀ inner, start < inner → inner < stop → StartsHole kinds inner →
    ∃ closer, inner < closer ∧ closer < stop ∧ Resumes kinds closer ∧ opener kinds closer = inner

/-- In the tokens of a text, every token that resumes a template closes a hole that an
earlier token has opened, distinct tokens close distinct holes, and no right brace
stands where the innermost open brace is a hole. -/
theorem tokenize_nested {source : String} {tokens : List Token}
    (found : tokenize source = .ok tokens) :
    (∀ index, Resumes (tokens.map (·.kind)) index →
      ClosesHole (tokens.map (·.kind)) (opener (tokens.map (·.kind)) index) index) ∧
    (∀ first second, Resumes (tokens.map (·.kind)) first → Resumes (tokens.map (·.kind)) second →
      opener (tokens.map (·.kind)) first = opener (tokens.map (·.kind)) second →
      first = second) ∧
    ∀ index, (tokens.map (·.kind))[index]? = some (.punctuator .rightBrace) →
      ∀ innermost, (openBraces (tokens.map (·.kind)) index).head? = some innermost →
        innermost.brace ≠ .hole := by
  rcases tokenize_eq_ok_iff.mp found with ⟨last, -, -, scanned, -, -⟩
  have disciplined := scanned.disciplined rfl
  refine ⟨fun index resumes => ?_, fun _ _ => disciplined.opener_injective, disciplined.notInHole⟩
  rcases disciplined.opener_startsHole resumes with ⟨order, starts⟩
  rcases disciplined.balanced resumes with ⟨front, total⟩
  exact ⟨order, starts, front, total, fun _ => disciplined.opener_lt_opener resumes,
    fun _ => disciplined.exists_closer resumes⟩

/-- A block inside of a hole, and another hole behind it. -/
theorem tokenize_nested_block : ∃ tokens,
    tokenize "\x60a$\x7b \x7bk:\x7b\x7d\x7d \x7db$\x7bx\x7d\x60" = .ok tokens ∧
    ClosesHole (tokens.map (·.kind)) 0 7 ∧ ClosesHole (tokens.map (·.kind)) 7 9 := by
  have kinds : (tokenize "\x60a$\x7b \x7bk:\x7b\x7d\x7d \x7db$\x7bx\x7d\x60").toOption.map
      (·.map (·.kind)) = some [.templateHead, .punctuator .leftBrace, .identifier,
        .punctuator .colon, .punctuator .leftBrace, .punctuator .rightBrace,
        .punctuator .rightBrace, .templateMiddle, .identifier, .templateTail] := by
    decide +kernel
  cases found : tokenize "\x60a$\x7b \x7bk:\x7b\x7d\x7d \x7db$\x7bx\x7d\x60" with
  | error error =>
      rw [found] at kinds
      cases kinds
  | ok tokens =>
      rw [found] at kinds
      replace kinds := Option.some.inj kinds
      dsimp only at kinds
      have nested := (tokenize_nested found).1
      rw [kinds] at nested
      refine ⟨tokens, rfl, ?_, ?_⟩
      · rw [kinds]
        exact nested 7 ⟨.templateMiddle, rfl, rfl⟩
      · rw [kinds]
        exact nested 9 ⟨.templateTail, rfl, rfl⟩

end ExprScript
