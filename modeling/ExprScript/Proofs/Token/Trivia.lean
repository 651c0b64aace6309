import ExprScript.Proofs.Token.Progress

/-! # What stands between tokens

The text that is skipped before a token is trivia: blanks and complete comments.
-/

namespace ExprScript

/-- A text that means nothing, up to the text that follows it. -/
inductive Trivia : List Char → List Char → Prop
  | none {follow : List Char} : Trivia [] follow
  | blank {c : Char} {gap follow : List Char} (isBlank : Text.isBlank c = true)
      (later : Trivia gap follow) : Trivia (c :: gap) follow
  /-- A comment up to the end of its line, or of the text. -/
  | line {comment gap follow : List Char}
      (oneLine : ∀ c ∈ comment, Text.isLineTerminator c = false)
      (ended : ∀ c, (gap ++ follow).head? = some c → Text.isLineTerminator c = true)
      (later : Trivia gap follow) : Trivia ('/' :: '/' :: comment ++ gap) follow
  /-- A comment up to the first mark that ends it. -/
  | block {comment gap follow : List Char} (unbroken : ¬ ['*', '/'] <:+: comment)
      (later : Trivia gap follow) :
      Trivia ('/' :: '*' :: comment ++ '*' :: '/' :: gap) follow

theorem Trivia.append {gap gap' follow : List Char} (trivia : Trivia gap (gap' ++ follow))
    (trivia' : Trivia gap' follow) : Trivia (gap ++ gap') follow := by
  generalize text : gap' ++ follow = follow' at trivia
  induction trivia with
  | none => exact trivia'
  | blank isBlank _ induction => exact .blank isBlank (induction text)
  | line oneLine ended _ induction =>
      rw [List.append_assoc]
      refine .line oneLine ?_ (induction text)
      rw [List.append_assoc, text]
      exact ended
  | block unbroken _ induction =>
      rw [List.append_assoc]
      exact .block unbroken (induction text)

namespace Cursor

def Skips (before after : Cursor) : Prop :=
  ∃ gap, before.rest = gap ++ after.rest ∧
    after.position.offset = before.position.offset + byteSize gap ∧ Trivia gap after.rest

theorem Skips.refl (cursor : Cursor) : Skips cursor cursor := ⟨[], rfl, rfl, .none⟩

theorem Skips.leads {before after : Cursor} (skips : Skips before after) : Leads before after := by
  rcases skips with ⟨gap, text, offset, -⟩
  exact ⟨gap, text, offset⟩

theorem Leads.skips {before after : Cursor} {gap : List Char} (leads : Leads before after)
    (text : before.rest = gap ++ after.rest) (trivia : Trivia gap after.rest) :
    Skips before after := by
  rcases leads with ⟨passed, text', offset⟩
  cases List.append_cancel_right (text'.symm.trans text)
  exact ⟨gap, text, offset, trivia⟩

theorem Skips.trans {first second third : Cursor} (left : Skips first second)
    (right : Skips second third) : Skips first third := by
  have leads := left.leads.trans right.leads
  rcases left with ⟨gap, text, -, trivia⟩
  rcases right with ⟨gap', text', -, trivia'⟩
  rw [text'] at trivia
  refine leads.skips ?_ (trivia.append trivia')
  rw [text, text', List.append_assoc]

theorem skips_blank {cursor : Cursor} {c : Char} (head : cursor.peek? = some c)
    (isBlank : Text.isBlank c = true) : Skips cursor cursor.advance := by
  have leads := leads_advance cursor
  rcases rest_advance head with text | ⟨rfl, text⟩
  · exact leads.skips text (.blank isBlank .none)
  · exact leads.skips text (.blank isBlank (.blank rfl .none))

end Cursor

namespace Reader

open Cursor

theorem skipLineComment_ensures (before : Cursor) : Ensures skipLineComment before fun _ after =>
    ∃ comment, before.rest = comment ++ after.rest ∧
      (∀ c ∈ comment, Text.isLineTerminator c = false) ∧
      ∀ c, after.rest.head? = some c → Text.isLineTerminator c = true := by
  apply Ensures.get
  refine .repeatWithin (fun _ middle => ∃ comment, before.rest = comment ++ middle.rest ∧
    ∀ c ∈ comment, Text.isLineTerminator c = false) ?_ ?_ _ ⟨[], rfl, nofun⟩
  · intro _ middle holds
    rcases holds with ⟨comment, text, oneLine⟩
    refine .bind (.get (.pure ?_))
    cases head : middle.peek? with
    | none =>
        refine .pure ⟨comment, text, oneLine, fun c head' => ?_⟩
        cases head.symm.trans head'
    | some c =>
        refine .ite (fun goesOn => .modify (.pure ?_)) fun ends => .pure ?_
        · have inside : Text.isLineTerminator c = false := by simpa using goesOn
          refine ⟨comment ++ [c], ?_, ?_⟩
          · rcases rest_advance head with text' | ⟨rfl, -⟩
            · rw [text, text', List.append_assoc]
              rfl
            · cases inside
          · intro d member
            rcases List.mem_append.mp member with member | member
            · exact oneLine d member
            · cases List.mem_singleton.mp member
              exact inside
        · refine ⟨comment, text, oneLine, fun d head' => ?_⟩
          cases head.symm.trans head'
          simpa using ends
  · exact fun _ => .bindAny fun _ _ => .throw _

/-- A mark of two characters that is not yet there is not completed by the next
one, unless it stands right before it. -/
theorem not_infix_concat {first second c : Char} {text rest : List Char}
    (absent : ¬ [first, second] <:+: text ++ (c :: rest).take 1)
    (next : ¬ (c = first ∧ rest.head? = some second)) :
    ¬ [first, second] <:+: (text ++ [c]) ++ rest.take 1 := by
  cases rest with
  | nil => simpa using absent
  | cons d rest =>
      simp only [List.take_succ_cons, List.take_zero] at absent ⊢
      intro found
      rcases List.infix_concat_iff.mp found with last | earlier
      · have equal : [first, second] = [c, d] := by
          have suffix : [c, d] <:+ text ++ [c] ++ [d] := ⟨text, by simp⟩
          exact (List.suffix_of_suffix_length_le last suffix (Nat.le_refl 2)).eq_of_length rfl
        cases equal
        exact next ⟨rfl, rfl⟩
      · exact absent earlier

theorem rest_of_peeks {cursor : Cursor} {c d : Char} (first : cursor.peek? = some c)
    (second : cursor.peekSecond? = some d) : ∃ rest, cursor.rest = c :: d :: rest := by
  unfold Cursor.peek? at first
  unfold Cursor.peekSecond? at second
  match text : cursor.rest with
  | [] =>
      rw [text] at first
      cases first
  | [_] =>
      rw [text] at second
      cases second
  | _ :: _ :: rest =>
      rw [text] at first second
      cases first
      cases second
      exact ⟨rest, rfl⟩

theorem rest_advance_of_ne {cursor : Cursor} {c : Char} {rest : List Char}
    (text : cursor.rest = c :: rest) (single : c ≠ '\r') : cursor.advance.rest = rest := by
  rcases rest_advance (congrArg List.head? text) with text' | ⟨isReturn, -⟩
  · rw [text] at text'
    exact (List.cons.inj text').2.symm
  · exact absurd isReturn single

theorem skipBlockComment_ensures {before : Cursor} {body : List Char}
    (opens : before.rest = '/' :: '*' :: body) :
    Ensures skipBlockComment before fun _ after => ∃ comment,
      body = comment ++ '*' :: '/' :: after.rest ∧ ¬ ['*', '/'] <:+: comment := by
  have inside : before.advance.advance.rest = body :=
    rest_advance_of_ne (rest_advance_of_ne opens (by decide)) (by decide)
  refine .bind (.get (.pure (.modify (.modify (.get ?_)))))
  refine .repeatWithin (fun _ (middle : Cursor) => ∃ comment, body = comment ++ middle.rest ∧
    ¬ ['*', '/'] <:+: comment ++ middle.rest.take 1) ?_ ?_ _ ⟨[], inside.symm, ?_⟩
  · intro newline middle holds
    rcases holds with ⟨comment, text, absent⟩
    refine .bind (.get (.pure ?_))
    cases head : middle.peek? with
    | none => exact .throw _
    | some c =>
        refine .bind (.get (.pure (.ite (fun closes => ?_) fun goesOn => ?_)))
        · simp only [Bool.and_eq_true, beq_iff_eq] at closes
          rcases closes with ⟨rfl, second⟩
          rcases rest_of_peeks head second with ⟨rest, text'⟩
          have remains : middle.advance.advance.rest = rest :=
            rest_advance_of_ne (rest_advance_of_ne text' (by decide)) (by decide)
          refine .modify (.modify (.pure ⟨comment, ?_, ?_⟩))
          · rw [text, text', remains]
          · exact fun found => absent (found.trans (List.prefix_append _ _).isInfix)
        · refine .modify (.pure ?_)
          rcases rest_advance head with text' | ⟨rfl, text'⟩
          · refine ⟨comment ++ [c], ?_, ?_⟩
            · rw [text, text', List.append_assoc]
              rfl
            · rw [text'] at absent
              apply not_infix_concat absent
              intro closes
              apply goesOn
              rw [Cursor.peekSecond?, text', List.getElem?_cons_succ, ← List.head?_eq_getElem?]
              simpa using closes
          · refine ⟨comment ++ ['\r'] ++ ['\n'], ?_, ?_⟩
            · rw [text, text']
              simp
            · rw [text'] at absent
              have absent' := not_infix_concat absent (by simp)
              exact not_infix_concat absent' (by simp)
  · exact fun _ => .bindAny fun _ _ => .throw _
  · intro found
    have short := found.length_le
    simp only [List.nil_append, List.length_cons, List.length_take] at short
    omega

theorem skips_line {before after : Cursor} {body comment : List Char}
    (opens : before.rest = '/' :: '/' :: body) (leads : before.Leads after)
    (text : before.rest = comment ++ after.rest)
    (oneLine : ∀ c ∈ comment, Text.isLineTerminator c = false)
    (ended : ∀ c, after.rest.head? = some c → Text.isLineTerminator c = true) :
    before.Skips after := by
  -- No line ends with a slash, so both slashes belong to the comment.
  have slash : ∀ {passed text : List Char}, passed ++ after.rest = '/' :: text →
      ∃ passed', passed = '/' :: passed' ∧ text = passed' ++ after.rest := by
    intro passed text equal
    rcases List.append_eq_cons_iff.mp equal with ⟨-, stops⟩ | found
    · have wrong := ended '/' (by rw [stops]; rfl)
      cases wrong
    · exact found
  rcases slash (text.symm.trans opens) with ⟨passed, rfl, text'⟩
  rcases slash text'.symm with ⟨passed', rfl, -⟩
  have trivia : Trivia ('/' :: '/' :: passed' ++ []) after.rest := by
    refine .line ?_ ended .none
    exact fun c member => oneLine c (List.mem_cons_of_mem _ (List.mem_cons_of_mem _ member))
  rw [List.append_nil] at trivia
  exact leads.skips text trivia

theorem skipTrivia_skips (before : Cursor) :
    Ensures skipTrivia before fun _ after => before.Skips after := by
  apply Ensures.get
  refine .repeatWithin (fun _ (middle : Cursor) => before.Skips middle) ?_ ?_ _ (.refl before)
  · intro newline middle skips
    refine .bind (.get (.pure ?_))
    cases head : middle.peek? with
    | none => exact .pure skips
    | some c =>
        refine .ite (fun isBlank => ?_) fun _ => ?_
        · exact .modify (.pure (skips.trans (skips_blank head isBlank)))
        refine .bind (.get (.pure (.ite (fun opens => ?_) fun _ => ?_)))
        · simp only [Bool.and_eq_true, beq_iff_eq] at opens
          rcases opens with ⟨rfl, second⟩
          rcases rest_of_peeks head second with ⟨body, opens⟩
          refine .bind (((skipLineComment_ensures middle).both
            ((skipWhile_forward _).ensures middle)).mono fun _ after holds => .pure ?_)
          rcases holds with ⟨⟨comment, text, oneLine, ended⟩, leads⟩
          exact skips.trans (skips_line opens leads text oneLine ended)
        refine .bind (.get (.pure (.ite (fun opens => ?_) fun _ => .pure skips)))
        simp only [Bool.and_eq_true, beq_iff_eq] at opens
        rcases opens with ⟨rfl, second⟩
        rcases rest_of_peeks head second with ⟨body, opens⟩
        refine .bind (((skipBlockComment_ensures opens).both
          (skipBlockComment_advances head).ensures).mono fun _ after holds => .pure ?_)
        rcases holds with ⟨⟨comment, text, unbroken⟩, passes⟩
        refine skips.trans (passes.1.skips ?_ (.block unbroken .none))
        rw [opens, text]
        simp
  · exact fun _ => .bindAny fun _ _ => .throw _

end Reader

end ExprScript
