import ExprScript.Proofs.Token.Locality
import ExprScript.Proofs.Token.Nesting

/-! # Blanks between tokens

Blanks may be put behind every token. The text before them is read as before, because
no token goes on with a blank, and the text after them because they are skipped.
-/

namespace ExprScript

open Reader Scanner

/-! ## Trivia -/

theorem Trivia.before {gap follow follow' : List Char} (trivia : Trivia gap follow)
    (same : follow'.head? = follow.head?) : Trivia gap follow' := by
  induction trivia with
  | none => exact .none
  | blank isBlank _ induction => exact .blank isBlank (induction same)
  | @line comment gap follow oneLine ended _ induction =>
      refine .line oneLine (fun c head => ended c ?_) (induction same)
      cases gap with
      | nil => exact same.symm.trans head
      | cons => exact head
  | block unbroken _ induction => exact .block unbroken (induction same)

theorem Trivia.blanks {blanks gap follow : List Char}
    (blank : ∀ c ∈ blanks, Text.isBlank c = true) (trivia : Trivia gap follow) :
    Trivia (blanks ++ gap) follow := by
  induction blanks with
  | nil => exact trivia
  | cons c blanks induction =>
      exact .blank (blank c (List.mem_cons_self ..))
        (induction fun d member => blank d (List.mem_cons_of_mem _ member))

theorem Trivia.behind {c : Char} {chunk gap follow : List Char}
    (isChunk : chunk = [] ∨ c = '\r' ∧ chunk = ['\n']) (trivia : Trivia (chunk ++ gap) follow) :
    Trivia gap follow := by
  rcases isChunk with rfl | ⟨-, rfl⟩
  · exact trivia
  · cases trivia with
    | blank _ later => exact later

namespace Text

/-- Whether there is a line end in a text. -/
def hasLineEnd (text : List Char) : Bool := text.any isLineTerminator

@[simp] theorem hasLineEnd_nil : hasLineEnd [] = false := rfl

@[simp] theorem hasLineEnd_cons (c : Char) (text : List Char) :
    hasLineEnd (c :: text) = (isLineTerminator c || hasLineEnd text) := List.any_cons

@[simp] theorem hasLineEnd_append (text text' : List Char) :
    hasLineEnd (text ++ text') = (hasLineEnd text || hasLineEnd text') := List.any_append

theorem hasLineEnd_eq_false {text : List Char}
    (oneLine : ∀ c ∈ text, isLineTerminator c = false) : hasLineEnd text = false :=
  List.any_eq_false.mpr fun c member => by simp [oneLine c member]

theorem hasLineEnd_behind {c : Char} {chunk : List Char}
    (isChunk : chunk = [] ∨ c = '\r' ∧ chunk = ['\n']) (text : List Char) :
    hasLineEnd (c :: (chunk ++ text)) = (isLineTerminator c || hasLineEnd text) := by
  rcases isChunk with rfl | ⟨rfl, rfl⟩
  · rfl
  · rfl

end Text

namespace Reader

open Text

theorem skip_takes (c : Char) (left : List Char) {tail : List Char}
    (noFeed : tail.head? ≠ some '\n') : ∃ chunk middle,
      (chunk = [] ∨ c = '\r' ∧ chunk = ['\n']) ∧ left = chunk ++ middle ∧
        Takes skip (c :: (left ++ tail)) () (middle ++ tail) := by
  have returns : ∀ {chunk rest : List Char}, IsReturn chunk rest →
      Takes Reader.skip (chunk ++ rest) () rest :=
    fun isReturn cursor unread =>
      ⟨(), cursor.advance, rfl, rfl, isReturn.advance unread, cursor.leads_advance⟩
  by_cases isReturn : c = '\r'
  · subst isReturn
    by_cases feeds : left.head? = some '\n'
    · rcases List.head?_eq_some_iff.mp feeds with ⟨middle, rfl⟩
      exact ⟨['\n'], middle, .inr ⟨rfl, rfl⟩, rfl, returns (.inl rfl)⟩
    · refine ⟨[], left, .inl rfl, rfl, returns (.inr ⟨rfl, ?_⟩)⟩
      cases left with
      | nil => exact noFeed
      | cons => exact feeds
  · exact ⟨[], left, .inl rfl, rfl, Takes.skip isReturn⟩

theorem skipBlockComment_takes {comment rest : List Char} (unbroken : ¬ ['*', '/'] <:+: comment) :
    Takes skipBlockComment ('/' :: '*' :: (comment ++ '*' :: '/' :: rest)) (hasLineEnd comment)
      rest := by
  apply Takes.position
  intro start
  apply (Takes.skip (by decide)).bind
  apply (Takes.skip (by decide)).bind
  apply Takes.loopWith fun newline text => ∃ left, text = left ++ '*' :: '/' :: rest ∧
    ¬ ['*', '/'] <:+: left ∧ (newline || hasLineEnd left) = hasLineEnd comment
  · rintro newline text ⟨left, rfl, unbroken, total⟩
    cases left with
    | nil =>
        left
        rw [← total, hasLineEnd_nil, Bool.or_false]
        apply Takes.bind Takes.peek?
        apply Takes.bind Takes.peekSecond?
        apply Takes.iteTrue rfl
        exact (Takes.skip (by decide)).bind ((Takes.skip (by decide)).bind (.pure _))
    | cons c left =>
        right
        rcases @skip_takes c left ('*' :: '/' :: rest) (by simp) with
          ⟨chunk, middle, isChunk, rfl, takes⟩
        refine ⟨newline || Text.isLineTerminator c, middle ++ '*' :: '/' :: rest, ?_, ?_, middle,
          rfl, fun found => unbroken (found.trans ?_), ?_⟩
        · apply Takes.bind Takes.peek?
          apply Takes.bind Takes.peekSecond?
          refine Takes.iteFalse ?_ (takes.bind (.pure _))
          simp only [Bool.and_eq_true, beq_iff_eq, List.cons_append, List.getElem?_cons_succ,
            ← List.head?_eq_getElem?]
          rintro ⟨rfl, closes⟩
          apply unbroken
          cases parts : chunk ++ middle with
          | nil =>
              rw [parts] at closes
              cases closes
          | cons d others =>
              rw [parts] at closes
              cases closes
              exact ⟨[], others, rfl⟩
        · simp only [List.length_append, List.length_cons]
          omega
        · exact (List.suffix_append chunk middle).isInfix.trans (List.suffix_cons _ _).isInfix
        · rw [← total, hasLineEnd_behind isChunk, Bool.or_assoc]
  · exact ⟨comment, rfl, unbroken, rfl⟩

theorem skipTrivia_takes {gap follow : List Char} (trivia : Trivia gap follow)
    (noTrivia : NoTrivia follow) : Takes skipTrivia (gap ++ follow) (hasLineEnd gap) follow := by
  apply Takes.loopWith fun newline text => ∃ left, text = left ++ follow ∧ Trivia left follow ∧
    (newline || hasLineEnd left) = hasLineEnd gap
  · rintro newline text ⟨left, rfl, trivia, total⟩
    cases trivia with
    | none =>
        left
        rw [← total, hasLineEnd_nil, Bool.or_false]
        apply Takes.bind Takes.peek?
        cases follow with
        | nil => exact .pure _
        | cons c follow =>
            rcases noTrivia c rfl with ⟨notBlank, noComment⟩
            apply Takes.iteFalse (by simp [notBlank])
            apply Takes.bind Takes.peekSecond?
            apply Takes.iteFalse (by simpa using fun isSlash => (noComment isSlash).1)
            apply Takes.bind Takes.peekSecond?
            exact Takes.iteFalse (by simpa using fun isSlash => (noComment isSlash).2) (.pure _)
    | @blank c left _ isBlank later =>
        right
        have noFeed : follow.head? ≠ some '\n' := by
          intro head
          cases (noTrivia '\n' head).1
        rcases skip_takes c left noFeed with ⟨chunk, middle, isChunk, rfl, takes⟩
        refine ⟨newline || Text.isLineTerminator c, middle ++ follow, ?_, ?_, middle, rfl,
          later.behind isChunk, ?_⟩
        · apply Takes.bind Takes.peek?
          exact Takes.iteTrue isBlank (takes.bind (.pure _))
        · simp only [List.length_append, List.length_cons]
          omega
        · rw [← total, hasLineEnd_behind isChunk, Bool.or_assoc]
    | @line comment left _ oneLine ended later =>
        right
        have skips : Takes skipLineComment ('/' :: '/' :: comment ++ (left ++ follow)) ()
            (left ++ follow) := by
          apply skipWhile_takes
          · intro c member
            have inside : Text.isLineTerminator c = false := by
              rcases List.mem_cons.mp member with rfl | member
              · rfl
              rcases List.mem_cons.mp member with rfl | member
              · rfl
              · exact oneLine c member
            refine ⟨by simp [inside], ?_⟩
            rintro rfl
            cases inside
          · intro c head
            simp [ended c head]
        refine ⟨newline, left ++ follow, ?_, by simp; omega, left, rfl, later, ?_⟩
        · rw [List.append_assoc]
          apply Takes.bind Takes.peek?
          apply Takes.iteFalse (by decide)
          apply Takes.bind Takes.peekSecond?
          exact Takes.iteTrue rfl (skips.bind (.pure _))
        · rw [← total]
          simp [hasLineEnd_eq_false oneLine]
          rfl
    | @block comment left _ unbroken later =>
        right
        have skips := @skipBlockComment_takes comment (left ++ follow) unbroken
        refine ⟨newline || hasLineEnd comment, left ++ follow, ?_, by simp; omega, left, rfl,
          later, ?_⟩
        · rw [List.append_assoc, List.cons_append, List.cons_append]
          apply Takes.bind Takes.peek?
          apply Takes.iteFalse (by decide)
          apply Takes.bind Takes.peekSecond?
          apply Takes.iteFalse (by simp)
          apply Takes.bind Takes.peekSecond?
          exact Takes.iteTrue rfl (skips.bind (.pure _))
        · rw [← total]
          simp [Bool.or_assoc]
          rfl
  · exact ⟨gap, rfl, trivia, rfl⟩

end Reader

/-! ## Tokens -/

/-- What a token is, apart from where it stands. -/
def Token.face (token : Token) : TokenKind × Payload × String × Bool :=
  (token.kind, token.payload, token.raw, token.octal)

namespace Scanner

open Reader Text

/-- What may follow a token instead: the same up to a place between two tokens, where
the second text is over or has a blank. -/
structure Parted (rest rest' : List Char) : Prop where
  apart : Sequel.apart.Allows rest rest'
  /-- Whether a point starts a number can be told from both texts. -/
  point : rest'.head? = some '.' → rest'[1]?.any Char.isDigit = rest[1]?.any Char.isDigit

theorem prefix_of_solid {chars common tail : List Char}
    (solid : ∀ c ∈ chars, Text.isBlank c = false) (idle : Idle tail.head?)
    (starts : chars <+: common ++ tail) : chars <+: common := by
  cases tail with
  | nil => rwa [List.append_nil] at starts
  | cons c tail =>
      refine prefix_of_outside (fun member => ?_) starts
      have notBlank := solid c member
      rw [idle c rfl] at notBlank
      cases notBlank

theorem spelling_solid (mark : Punctuator) :
    ∀ c ∈ mark.spelling.toList, Text.isBlank c = false := by
  have all : mark.spelling.toList.all (!Text.isBlank ·) = true := by cases mark <;> decide
  simpa using all

theorem noDigit_apart {rest rest' : List Char} (apart : Sequel.apart.Allows rest rest')
    (noDigit : rest.head?.any Char.isDigit = false) : rest'.head?.any Char.isDigit = false := by
  rcases Sequel.head_apart apart with same | idle
  · rwa [same]
  · rw [Option.any_eq_false_iff_get]
    exact fun isSome => digits_solid _ (idle _ (Option.some_get isSome).symm)

/-- The text starts with the punctuator. A digit behind an optional link makes it none. -/
structure Fits (mark : Punctuator) (text : List Char) : Prop where
  starts : mark.spelling.toList <+: text
  noDigit : mark = .questionDot → text[2]?.any Char.isDigit = false

theorem punctuatorOf?_eq_some_iff {mark : Punctuator} {text : List Char} :
    punctuatorOf? text = some mark ↔ Fits mark text ∧ ∃ earlier later,
      Punctuator.longestFirst = earlier ++ mark :: later ∧
        ∀ other ∈ earlier, ¬ Fits other text := by
  have fits_iff : ∀ mark : Punctuator, (mark.spelling.toList.isPrefixOf text &&
      !(mark == .questionDot &&
        (text.drop mark.spelling.toList.length).head?.any Char.isDigit)) = true ↔
        Fits mark text := by
    intro mark
    simp only [Bool.and_eq_true, List.isPrefixOf_iff_prefix, Bool.not_eq_true',
      Bool.and_eq_false_iff, beq_eq_false_iff_ne, List.head?_drop]
    constructor
    · rintro ⟨starts, noDigit⟩
      refine ⟨starts, ?_⟩
      rintro rfl
      exact noDigit.resolve_left fun noLink => noLink rfl
    · rintro ⟨starts, noDigit⟩
      refine ⟨starts, ?_⟩
      by_cases isLink : mark = .questionDot
      · subst isLink
        exact .inr (noDigit rfl)
      · exact .inl isLink
  refine List.find?_eq_some_iff_append.trans ?_
  simp only [Bool.not_eq_true', Bool.eq_false_iff, ne_eq, fits_iff]

/-- Another punctuator that is tried earlier starts the same text only if that starts
with a question mark and a point. -/
theorem eq_question {mark : Punctuator} {earlier later : List Punctuator} {rest : List Char}
    (parts : Punctuator.longestFirst = earlier ++ mark :: later)
    (member : .questionDot ∈ earlier)
    (starts : Punctuator.questionDot.spelling.toList <+: mark.spelling.toList ++ rest) :
    mark.spelling.toList = ['?'] := by
  have pairwise := Punctuator.pairwise_longestFirst
  rw [parts] at pairwise
  have noStart := (List.pairwise_append.mp pairwise).2.2 _ member mark (List.mem_cons_self ..)
  rw [← Bool.not_eq_true, List.isPrefixOf_iff_prefix] at noStart
  have shorter : mark.spelling.toList <+: ['?', '.'] :=
    (List.prefix_or_prefix_of_prefix starts (List.prefix_append _ _)).resolve_left noStart
  revert noStart shorter
  cases mark <;> decide

theorem punctuatorOf?_parted {mark : Punctuator} {rest rest' : List Char}
    (found : punctuatorOf? (mark.spelling.toList ++ rest) = some mark)
    (parted : Parted rest rest') :
    punctuatorOf? (mark.spelling.toList ++ rest') = some mark := by
  rcases punctuatorOf?_eq_some_iff.mp found with ⟨fits, earlier, later, parts, others⟩
  refine punctuatorOf?_eq_some_iff.mpr ⟨⟨List.prefix_append _ _, ?_⟩, earlier, later, parts, ?_⟩
  · rintro rfl
    have noDigit : rest[0]?.any Char.isDigit = false := fits.noDigit rfl
    rw [← List.head?_eq_getElem?] at noDigit
    have noDigit' := noDigit_apart parted.apart noDigit
    rwa [List.head?_eq_getElem?] at noDigit'
  · intro other member fits'
    rcases Sequel.prepend _ mark.spelling.toList parted.apart with
      ⟨common, tail, tail', text, text', idle⟩
    have starts : other.spelling.toList <+: mark.spelling.toList ++ rest := by
      rw [text]
      exact (prefix_of_solid (spelling_solid other) idle (text' ▸ fits'.starts)).trans
        (List.prefix_append _ _)
    refine others other member ⟨starts, ?_⟩
    rintro rfl
    -- Here a point follows the question mark, and the digit behind it decides.
    have question := eq_question parts member starts
    rw [question] at fits' ⊢
    have noDigit : rest'[1]?.any Char.isDigit = false := fits'.noDigit rfl
    have point : rest'.head? = some '.' := by
      rcases fits'.starts with ⟨after, unread⟩
      have unread : '.' :: after = rest' := (List.cons.inj unread).2
      rw [← unread]
      rfl
    rw [parted.point point] at noDigit
    exact noDigit

section

variable {α β : Type} {before : Scanner} {allows : List Char → List Char → Prop}

/-- If the left action succeeds, the right one does the same for the text that was
passed, wherever it stands and with everything behind it that is allowed. -/
def Rescans (allows : List Char → List Char → Prop) (left right : Scan α) (before : Scanner) :
    Prop :=
  Ensures left before fun result after => ∃ passed,
    before.cursor.rest = passed ++ after.cursor.rest ∧
      ∀ rest, allows after.cursor.rest rest → ∀ other : Scanner,
        other.cursor.rest = passed ++ rest → other.braces = before.braces →
          Achieves right other fun result' final =>
            result' = result ∧ final.cursor.rest = rest ∧ final.braces = after.braces

def Still (action : Scan α) : Prop :=
  ∀ before, Ensures action before fun result after => after.cursor = before.cursor ∧
    ∀ other : Scanner, other.braces = before.braces → Achieves action other fun result' final =>
      result' = result ∧ final.cursor = other.cursor ∧ final.braces = after.braces

namespace Still

theorem pure (result : α) : Still (Pure.pure result) :=
  fun _ => .pure ⟨rfl, fun _ same => .pure ⟨rfl, rfl, same⟩⟩

theorem modify {change : Scanner → Scanner} (changeBraces : List Brace → List Brace)
    (cursor : ∀ scanner, (change scanner).cursor = scanner.cursor)
    (braces : ∀ scanner, (change scanner).braces = changeBraces scanner.braces) :
    Still (modifyGet fun scanner => (⟨⟩, change scanner) : Scan PUnit) :=
  fun before => .modify (.pure ⟨cursor before, fun other same =>
    .modify (.pure ⟨rfl, cursor other, by rw [braces, braces, same]⟩)⟩)

theorem bind {action : Scan α} {next : α → Scan β} (still : Still action)
    (later : ∀ value, Still (next value)) : Still (action >>= next) := by
  refine fun before => .bind ((still before).mono ?_)
  rintro value middle ⟨cursor, again⟩
  refine (later value middle).mono ?_
  rintro result after ⟨cursor', again'⟩
  refine ⟨cursor'.trans cursor, fun other same => .bind ((again other same).mono ?_)⟩
  rintro _ middle' ⟨rfl, stays, same'⟩
  refine (again' middle' same').mono ?_
  rintro _ final ⟨rfl, stays', same''⟩
  exact ⟨rfl, stays'.trans stays, same''⟩

end Still

namespace Rescans

theorem read {left right : Reader α} {sequel : Sequel}
    (repeats : Repeats sequel left right before.cursor)
    (allowed : ∀ rest rest', allows rest rest' → sequel.Allows rest rest') :
    Rescans allows (read left) (read right) before := by
  refine read_ensures.mono ?_
  rintro result after ⟨run, same⟩
  rcases repeats _ _ run with ⟨passed, text, takes⟩
  refine ⟨passed, text, fun rest allows other unread braces => ?_⟩
  refine (read_achieves (takes rest (allowed _ _ allows)) unread).mono ?_
  rintro _ final ⟨rfl, remains, same'⟩
  refine ⟨rfl, remains, ?_⟩
  rw [same', same]
  exact braces

theorem bind {left right : Scan α} {next : α → Scan β} (first : Rescans allows left right before)
    (later : ∀ value, Still (next value)) :
    Rescans allows (left >>= next) (right >>= next) before := by
  refine Ensures.bind (Ensures.mono first ?_)
  rintro value middle ⟨passed, text, again⟩
  refine (later value middle).mono ?_
  rintro result after ⟨cursor, again'⟩
  rw [cursor]
  refine ⟨passed, text, fun rest allows other unread same => .bind ?_⟩
  refine (again rest allows other unread same).mono ?_
  rintro _ middle' ⟨rfl, remains, same'⟩
  refine (again' middle' same').mono ?_
  rintro _ final ⟨rfl, stays, same''⟩
  exact ⟨rfl, by rw [stays, remains], same''⟩

theorem through {left right right' : Scan α} (rescans : Rescans allows left right before)
    (through : ∀ other : Scanner, other.braces = before.braces → ∀ post,
      Achieves right other post → Achieves right' other post) :
    Rescans allows left right' before := by
  refine Ensures.mono rescans ?_
  rintro result after ⟨passed, text, again⟩
  exact ⟨passed, text, fun rest allows other unread braces =>
    through other braces _ (again rest allows other unread braces)⟩

end Rescans

theorem noteBrace_still (mark : Punctuator) : Still (noteBrace mark) :=
  .modify (bracesAfter mark) (fun _ => by cases mark <;> rfl) fun _ => by cases mark <;> rfl

theorem scanTemplate_rescans (start start' : Position) (withHole withoutHole : TokenKind)
    {c : Char} (head : before.cursor.peek? = some c) (single : c ≠ '\r') :
    Rescans allows (scanTemplate start withHole withoutHole)
      (scanTemplate start' withHole withoutHole) before := by
  rcases List.head?_eq_some_iff.mp head with ⟨others, unread⟩
  refine .bind (.read (.bind (.skip unread single) fun _ _ _ => readTemplatePiece_repeats _ _ _)
    fun _ _ _ => trivial) fun piece => ?_
  dsimp only
  split
  · exact .bind (.modify (.hole :: ·) (fun _ => rfl) fun _ => rfl) fun _ => .pure _
  · exact .pure _

/-- A number passes the character that it starts with, and the digit behind a point. -/
theorem readNumeral_starts (start : Position) {cursor : Cursor} {first : Char}
    (head : cursor.peek? = some first)
    (starts : first.isDigit = true ∨ first = '.' ∧ cursor.peekSecond?.any Char.isDigit = true) :
    Ensures (readNumeral start) cursor fun _ after => ∃ others,
      cursor.rest = first :: others ++ after.rest ∧
        (first.isDigit = true ∨ first = '.' ∧ others.head?.any Char.isDigit = true) := by
  rcases List.head?_eq_some_iff.mp head with ⟨others, unread⟩
  have isStart : StartsNumber cursor.rest := by
    rw [Cursor.peekSecond?, unread, List.getElem?_cons_succ, ← List.head?_eq_getElem?] at starts
    exact ⟨first, others, unread, starts⟩
  refine (readNumeral_reads start isStart).mono ?_
  rintro result after ⟨passed, text, form⟩
  rcases startsNumber_of_form form with ⟨first', others', rfl, starts'⟩
  cases (List.cons.inj (unread.symm.trans text)).1
  exact ⟨others', text, starts'⟩

theorem scanPunctuator_rescans (start start' : Position) {first : Char}
    (head : before.cursor.peek? = some first) : Ensures (scanPunctuator start) before
      fun kind after => ∃ mark others, MarkStart mark first others ∧ kind = .punctuator mark ∧
        before.cursor.rest = first :: others ++ after.cursor.rest ∧
          ∀ rest, Parted after.cursor.rest rest → ∀ other : Scanner,
            other.cursor.rest = first :: others ++ rest → other.braces = before.braces →
              Achieves (scanPunctuator start') other fun kind' final =>
                kind' = kind ∧ final.cursor.rest = rest ∧ final.braces = after.braces := by
  refine .get ?_
  dsimp only
  split
  · next mark found =>
      have isStart := List.find?_some found
      simp only [Bool.and_eq_true, List.isPrefixOf_iff_prefix] at isStart
      rcases isStart.1 with ⟨unread, text⟩
      rcases markStart mark with ⟨first', others, marks⟩
      rw [← text] at found
      have takes : ∀ rest, Takes (skipMany mark.spelling.length) (mark.spelling.toList ++ rest) ()
          rest := by
        intro rest
        rw [← String.length_toList]
        exact skipMany_takes (marks.spelling ▸ marks.single)
      refine .bind (read_ensures.mono ?_)
      rintro ⟨⟩ middle ⟨run, same⟩
      have remains : middle.cursor.rest = unread :=
        ((text ▸ takes unread).ensures _ _ run).2
      refine .bind ((noteBrace_still mark middle).mono ?_)
      rintro ⟨⟩ after ⟨cursor, again⟩
      rw [marks.spelling] at text
      rw [Cursor.peek?, ← text] at head
      cases head
      refine .pure ⟨mark, others, marks, rfl, by rw [cursor, remains, text], ?_⟩
      rw [cursor, remains]
      intro rest parted other unread' braces
      have found' := punctuatorOf?_parted found parted
      rw [marks.spelling, ← unread'] at found'
      rw [← marks.spelling] at unread'
      apply Achieves.get
      dsimp only
      rw [found']
      apply Achieves.bind
      refine (read_achieves (takes rest) unread').mono ?_
      rintro ⟨⟩ middle' ⟨-, remains', same'⟩
      apply Achieves.bind
      refine (again middle' (by rw [same', same]; exact braces)).mono ?_
      rintro ⟨⟩ final ⟨-, stays, braces'⟩
      exact .pure ⟨rfl, by rw [stays, remains'], braces'⟩
  · exact .throw _

/-- A token is scanned in the same way wherever it stands, if the same braces are open
and a blank comes before the first character that differs. -/
theorem scanLexeme_rescans (start start' : Position) {first : Char}
    (head : before.cursor.peek? = some first) :
    Rescans Parted (scanLexeme start first) (scanLexeme start' first) before := by
  refine .get ?_
  refine .ite (fun isQuote => ?_) fun notQuote => .ite (fun isTick => ?_) fun notTick =>
    .ite (fun isHole => ?_) fun notHole => .ite (fun isNumber => ?_) fun notNumber =>
    .ite (fun isName => ?_) fun notName => ?_
  · refine Rescans.through (.bind (.read (readString_repeats start start' head ?_)
      fun _ _ _ => trivial) fun _ => .pure _) fun other braces post achieves => ?_
    · simpa using isQuote
    · exact .get (.iteTrue isQuote achieves)
  · refine Rescans.through (.bind (scanTemplate_rescans start start' _ _ head ?_) fun _ => .pure _)
      fun other braces post achieves => .get (.iteFalse notQuote (.iteTrue isTick achieves))
    rintro rfl
    cases isTick
  · have single : first ≠ '\r' := by
      rintro rfl
      cases isHole
    let inner : Scanner := { before with braces := before.braces.tail }
    have head' : inner.cursor.peek? = some first := head
    have rescans : Rescans Parted (do
        let scanned ← scanTemplate start .templateMiddle .templateTail
        return (scanned.1, scanned.2, false)) (do
        let scanned ← scanTemplate start' .templateMiddle .templateTail
        return (scanned.1, scanned.2, false)) inner :=
      .bind (scanTemplate_rescans start start' _ _ head' single) fun _ => .pure _
    refine .set (Ensures.mono rescans ?_)
    rintro lexeme after ⟨passed, text, again⟩
    refine ⟨passed, text, fun rest parted other unread braces => ?_⟩
    rw [← braces] at isHole
    refine .get (.iteFalse notQuote (.iteFalse notTick (.iteTrue isHole (.set ?_))))
    exact again rest parted { other with braces := other.braces.tail } unread (by rw [braces])
  · have starts : first.isDigit = true ∨ first = '.' ∧
        before.cursor.peekSecond?.any Char.isDigit = true := by simpa using isNumber
    have rescans : Rescans Parted (scanNumber start) (scanNumber start') before :=
      .bind (.read (readNumeral_repeats start start' head (starts.imp_right And.left))
        fun _ _ parted => parted.apart) fun _ => .pure _
    have begins : Ensures (scanNumber start) before fun _ after => ∃ others,
        before.cursor.rest = first :: others ++ after.cursor.rest ∧
          (first.isDigit = true ∨ first = '.' ∧ others.head?.any Char.isDigit = true) :=
      .bind (read_ensures.mono fun _ middle found => .pure
        (readNumeral_starts start head starts _ _ found.1))
    refine (rescans.both begins).mono ?_
    rintro lexeme after ⟨⟨passed, text, again⟩, others, text', starts'⟩
    cases List.append_cancel_right (text.symm.trans text')
    refine ⟨_, text, fun rest parted other unread braces => ?_⟩
    rw [← braces] at notHole
    refine .get (.iteFalse notQuote (.iteFalse notTick (.iteFalse notHole (.iteTrue ?_
      (again rest parted other unread braces)))))
    rw [Cursor.peekSecond?, unread]
    rcases starts' with digit | ⟨rfl, digit⟩
    · simp [digit]
    · cases others with
      | nil => cases digit
      | cons d others => simpa using digit
  · have noPoint : first ≠ '.' := by
      rintro rfl
      cases isName
    refine Rescans.through (.bind (.read (readName_repeats start start' before.cursor)
      fun _ _ parted => parted.apart) fun _ => .pure _) fun other braces post achieves => ?_
    rw [← braces] at notHole
    refine .get (.iteFalse notQuote (.iteFalse notTick (.iteFalse notHole (.iteFalse ?_
      (.iteTrue isName achieves)))))
    simp only [Bool.or_eq_true, not_or] at notNumber
    simp [notNumber.1, noPoint]
  · refine .bind ((scanPunctuator_rescans start start' head).mono ?_)
    rintro kind after ⟨mark, others, marks, -, text, again⟩
    refine .pure ⟨_, text, fun rest parted other unread braces => ?_⟩
    rw [← braces] at notHole
    refine .get (.iteFalse notQuote (.iteFalse notTick (.iteFalse notHole (.iteFalse ?_
      (.iteFalse notName (.bind ((again rest parted other unread braces).mono ?_)))))))
    · rw [Cursor.peekSecond?, unread]
      rw [Cursor.peekSecond?, text] at notNumber
      simp only [marks.notDigit, Bool.false_or, Bool.and_eq_true, beq_iff_eq, not_and] at notNumber ⊢
      intro isPoint
      rcases marks.point isPoint with ⟨rfl, -⟩ | rfl
      · have noDigit := notNumber isPoint
        simp only [List.cons_append, List.nil_append, List.getElem?_cons_succ,
          ← List.head?_eq_getElem?, Bool.not_eq_true] at noDigit ⊢
        exact noDigit_apart parted.apart noDigit
      · simp
    · rintro _ final ⟨rfl, remains, braces'⟩
      exact .pure ⟨rfl, remains, braces'⟩

theorem scanLexeme_point (start : Position) : Ensures (scanLexeme start '.') before
    fun _ after => before.cursor.rest = '.' :: after.cursor.rest →
      after.cursor.rest.head?.any Char.isDigit = false := by
  intro lexeme after run text
  by_contra digit
  rw [Bool.not_eq_false] at digit
  have second : before.cursor.peekSecond?.any Char.isDigit = true := by
    rw [Cursor.peekSecond?, text]
    simpa [List.head?_eq_getElem?] using digit
  have head : before.cursor.peek? = some '.' := congrArg List.head? text
  have longer : Ensures (scanLexeme start '.') before fun _ after => ∃ others,
      before.cursor.rest = '.' :: others ++ after.cursor.rest ∧ others ≠ [] := by
    refine .get (.ite (fun wrong => absurd wrong (by decide)) fun _ => .ite
      (fun wrong => absurd wrong (by decide)) fun _ => .ite (fun wrong => absurd wrong (by simp))
      fun _ => .ite (fun _ => ?_) fun wrong => absurd (by simp [second]) wrong)
    refine .bind (read_ensures.mono fun _ middle found => .pure ?_)
    rcases readNumeral_starts start head (.inr ⟨rfl, second⟩) _ _ found.1 with
      ⟨others, text, wrong | ⟨-, digit⟩⟩
    · cases wrong
    · refine ⟨others, text, ?_⟩
      rintro rfl
      cases digit
  rcases longer _ _ run with ⟨others, text', some⟩
  rw [text] at text'
  exact some (List.append_left_eq_self.mp (List.cons.inj text').2.symm)

theorem noTrivia_apart {passed rest rest' : List Char} (some : passed ≠ [])
    (noTrivia : NoTrivia (passed ++ rest)) (apart : Sequel.apart.Allows rest rest') :
    NoTrivia (passed ++ rest') := by
  rcases List.exists_cons_of_ne_nil some with ⟨first, others, rfl⟩
  rcases noTrivia first rfl with ⟨notBlank, noComment⟩
  intro c head
  cases head
  refine ⟨notBlank, fun isSlash => ?_⟩
  have noComment := noComment isSlash
  simp only [List.cons_append, List.getElem?_cons_succ, ← List.head?_eq_getElem?] at noComment ⊢
  rcases Sequel.head_apart (Sequel.prepend _ others apart) with same | idle
  · rwa [same]
  · constructor
    · exact fun head => absurd (idle _ head) (by decide)
    · exact fun head => absurd (idle _ head) (by decide)

theorem skipTrivia_gap (before : Cursor) : Ensures skipTrivia before fun newline after =>
    ∃ gap, before.rest = gap ++ after.rest ∧ Trivia gap after.rest ∧ NoTrivia after.rest ∧
      newline = hasLineEnd gap := by
  intro newline after run
  rcases skipTrivia_skips before _ _ run with ⟨gap, text, -, trivia⟩
  have noTrivia := skipTrivia_ensures before _ _ run
  have takes := skipTrivia_takes trivia noTrivia
  rw [← text] at takes
  exact ⟨gap, text, trivia, noTrivia, (takes.ensures _ _ run).1⟩

end

/-- A token that was scanned behind a gap, from some characters, is scanned from them
behind every gap. -/
structure Rereads (before : Scanner) (token : Token) (after : Scanner) (gap passed : List Char) :
    Prop where
  text : before.cursor.rest = gap ++ (passed ++ after.cursor.rest)
  trivia : Trivia gap (passed ++ after.cursor.rest)
  some : passed ≠ []
  newline : token.newlineBefore = hasLineEnd gap
  point : passed = ['.'] → after.cursor.rest.head?.any Char.isDigit = false
  again : ∀ gap' rest, Parted after.cursor.rest rest → Trivia gap' (passed ++ rest) →
    ∀ other : Scanner, other.cursor.rest = gap' ++ (passed ++ rest) →
      other.braces = before.braces → Achieves next other fun token' after' =>
        (token'.face = token.face ∧ token'.newlineBefore = hasLineEnd gap') ∧
          after'.cursor.rest = rest ∧ after'.braces = after.braces

variable {before : Scanner}

theorem next_rereads (before : Scanner) : Ensures next before fun token after =>
    token.kind ≠ .endOfInput → ∃ gap passed, Rereads before token after gap passed := by
  refine .bind (read_ensures.mono ?_)
  rintro newline middle ⟨run, same⟩
  rcases skipTrivia_gap _ _ _ run with ⟨gap, text, trivia, noTrivia, rfl⟩
  refine .get ?_
  dsimp only
  split
  · exact .pure fun notEnd => absurd rfl notEnd
  next first head =>
  refine .bind fun lexeme after scans => ?_
  have passes := (scanLexeme_advances head _).ensures _ _ scans
  have again := fun start' => scanLexeme_rescans middle.cursor.position start' head _ _ scans
  rcases again .first with ⟨passed, text', -⟩
  have some : passed ≠ [] := by
    rintro rfl
    have shorter := passes.cursor.2
    rw [text'] at shorter
    exact absurd shorter (Nat.lt_irrefl _)
  refine .get (.ite (fun _ => .bind (.throw _)) fun _ => .pure fun _ => ⟨gap, passed, ?_⟩)
  rw [text'] at text trivia noTrivia
  refine ⟨text, trivia, some, rfl, ?_, fun gap' rest parted trivia' other unread braces => ?_⟩
  · rintro rfl
    cases head.symm.trans (congrArg List.head? text')
    exact scanLexeme_point _ _ _ scans text'
  have skips := skipTrivia_takes trivia' (noTrivia_apart some noTrivia parted.apart)
  apply Achieves.bind
  refine (read_achieves skips unread).mono ?_
  rintro _ middle' ⟨rfl, remains, same'⟩
  have head' : middle'.cursor.peek? = .some first := by
    rcases List.exists_cons_of_ne_nil some with ⟨c, others, rfl⟩
    rw [Cursor.peek?, remains]
    exact (congrArg List.head? text').symm.trans head
  refine .get ?_
  dsimp only
  rw [head']
  rcases again middle'.cursor.position with ⟨passed', text'', again⟩
  cases List.append_cancel_right (text'.symm.trans text'')
  have braces' : middle'.braces = middle.braces := by
    rw [same', same]
    exact braces
  have advances := scanLexeme_advances head' middle'.cursor.position
  refine .bind (((again rest parted middle' remains braces').ensured advances.ensures).mono ?_)
  rintro _ after' ⟨⟨rfl, remains', braces''⟩, passes'⟩
  refine .get (.iteFalse ?_ (.pure ⟨⟨?_, rfl⟩, remains', braces''⟩))
  · simpa using Nat.ne_of_gt passes'.cursor.offset_lt
  · have raw := passes'.cursor.1.textUntil (remains.trans (congrArg _ remains'.symm))
    rw [Token.face, Token.face, raw, passes.cursor.1.textUntil text']

theorem next_end_trivia (before : Scanner) : Ensures next before fun token _ =>
    token.kind = .endOfInput → Trivia before.cursor.rest [] := by
  refine (next_reads before).mono ?_
  rintro token after ⟨cursor, ⟨gap, text, -, trivia⟩, -, ⟨-, atEnd, -⟩ | inside⟩ isEnd
  · rw [atEnd, List.append_nil] at text
    rw [atEnd] at trivia
    exact text ▸ trivia
  · exact absurd isEnd inside.1

theorem next_end_achieves {other : Scanner} (trivia : Trivia other.cursor.rest []) :
    Achieves next other fun token _ => token.kind = .endOfInput := by
  apply Achieves.bind
  refine (read_achieves (skipTrivia_takes trivia nofun) (List.append_nil _).symm).mono ?_
  rintro _ middle ⟨-, remains, -⟩
  refine .get ?_
  dsimp only
  rw [Cursor.peek?, remains]
  exact .pure rfl

/-! ## All tokens -/

variable {last middle : Scanner} {tokens tokens' : List Token}

theorem Scanned.append (scanned : Scanned before tokens middle)
    (scanned' : Scanned middle tokens' last) : Scanned before (tokens ++ tokens') last := by
  induction scanned with
  | none => exact scanned'
  | token run notEnd _ induction => exact .token run notEnd (induction scanned')

theorem Scanned.split (scanned : Scanned before (tokens ++ tokens') last) :
    ∃ middle, Scanned before tokens middle ∧ Scanned middle tokens' last := by
  induction tokens generalizing before with
  | nil => exact ⟨before, .none, scanned⟩
  | cons token tokens induction =>
      cases scanned with
      | token run notEnd later =>
          rcases induction later with ⟨middle, first, second⟩
          exact ⟨middle, .token run notEnd first, second⟩

def Severed (tail tail' : List Char) : Prop := tail' = tail ∨ Idle tail'.head?

theorem Severed.parted {text tail tail' : List Char} (severed : Severed tail tail')
    (point : text = ['.'] → tail.head?.any Char.isDigit = false) :
    Parted (text ++ tail) (text ++ tail') := by
  rcases severed with rfl | idle
  · exact ⟨Sequel.apart_refl _, fun _ => rfl⟩
  refine ⟨⟨text, tail, tail', rfl, rfl, idle⟩, fun head => ?_⟩
  match text with
  | [] => exact absurd (idle '.' head) (by decide)
  | [c] =>
      cases head
      have noDigit := noDigit_apart ⟨[], tail, tail', rfl, rfl, idle⟩ (point rfl)
      rw [List.head?_eq_getElem?] at noDigit point
      exact noDigit.trans (point rfl).symm
  | _ :: _ :: _ => rfl

/-- Tokens that were scanned are scanned again in front of a blank. -/
theorem Scanned.rereads (scanned : Scanned before tokens last) :
    ∃ text, before.cursor.rest = text ++ last.cursor.rest ∧
      (text = ['.'] → last.cursor.rest.head?.any Char.isDigit = false) ∧
        ∀ tail', Severed last.cursor.rest tail' → ∀ other : Scanner,
          other.cursor.rest = text ++ tail' → other.braces = before.braces →
            ∃ tokens' last', Scanned other tokens' last' ∧
              tokens'.map (·.face) = tokens.map (·.face) ∧
              tokens'.map (·.newlineBefore) = tokens.map (·.newlineBefore) ∧
              last'.cursor.rest = tail' ∧ last'.braces = last.braces := by
  induction scanned with
  | none => exact ⟨[], rfl, nofun, fun _ _ other unread braces =>
      ⟨[], other, .none, rfl, rfl, unread, braces⟩⟩
  | @token scanner middle last token tokens run notEnd _ induction =>
      rcases next_rereads _ _ _ run notEnd with ⟨gap, passed, rereads⟩
      rcases induction with ⟨text, behind, point, again⟩
      have whole := rereads.text
      have trivia := rereads.trivia
      have parts := rereads.again
      rw [behind] at whole trivia parts
      refine ⟨gap ++ (passed ++ text), by rw [whole]; simp, fun single => ?_, ?_⟩
      · have length := congrArg List.length single
        have longer := List.length_pos_of_ne_nil rereads.some
        simp only [List.length_append, List.length_cons, List.length_nil] at length
        cases List.eq_nil_of_length_eq_zero (show gap.length = 0 by omega)
        cases List.eq_nil_of_length_eq_zero (show text.length = 0 by omega)
        rw [List.nil_append, List.append_nil] at single
        rw [List.nil_append] at behind
        exact behind ▸ rereads.point single
      · intro tail' severed other unread braces
        have same : (passed ++ (text ++ tail')).head? =
            (passed ++ (text ++ last.cursor.rest)).head? := by
          rw [List.head?_append_of_ne_nil _ rereads.some, List.head?_append_of_ne_nil _ rereads.some]
        rcases parts gap (text ++ tail') (severed.parted point) (trivia.before same) other
          (by rw [unread]; simp) braces with
            ⟨token', middle', run', ⟨face, newline⟩, remains, braces'⟩
        rcases again tail' severed middle' remains braces' with
          ⟨tokens', last', scanned', faces, newlines, remains', braces''⟩
        have kind : token'.kind = token.kind := congrArg Prod.fst face
        refine ⟨token' :: tokens', last', .token run' (kind ▸ notEnd) scanned', ?_, ?_, remains',
          braces''⟩
        · rw [List.map_cons, List.map_cons, face, faces]
        · rw [List.map_cons, List.map_cons, newline, rereads.newline, newlines]

/-- Blanks in front of the tokens are noticed at most as a line end before the first one. -/
theorem Scanned.behind_blanks (scanned : Scanned before tokens last) {blanks : List Char}
    (blank : ∀ c ∈ blanks, Text.isBlank c = true) {other : Scanner}
    (unread : other.cursor.rest = blanks ++ before.cursor.rest)
    (braces : other.braces = before.braces) : ∃ tokens' last', Scanned other tokens' last' ∧
      tokens'.map (·.face) = tokens.map (·.face) ∧
      tokens'.map (·.newlineBefore) =
        (tokens.map (·.newlineBefore)).modifyHead (· || hasLineEnd blanks) ∧
      (Trivia last.cursor.rest [] → Trivia last'.cursor.rest []) := by
  cases scanned with
  | none => exact ⟨[], other, .none, rfl, rfl, fun trivia => unread ▸ trivia.blanks blank⟩
  | @token scanner middle last token tokens run notEnd later =>
      rcases next_rereads _ _ _ run notEnd with ⟨gap, passed, rereads⟩
      have parted : Parted middle.cursor.rest middle.cursor.rest :=
        ⟨Sequel.apart_refl _, fun _ => rfl⟩
      rw [rereads.text, ← List.append_assoc] at unread
      rcases rereads.again (blanks ++ gap) _ parted (rereads.trivia.blanks blank) other unread
        braces with ⟨token', middle', run', ⟨face, newline⟩, remains, braces'⟩
      rcases later.rereads with ⟨text, behind, -, again⟩
      rcases again last.cursor.rest (.inl rfl) middle' (by rw [remains, behind]) braces' with
        ⟨tokens', last', scanned', faces, newlines, remains', -⟩
      have kind : token'.kind = token.kind := congrArg Prod.fst face
      refine ⟨token' :: tokens', last', .token run' (kind ▸ notEnd) scanned', ?_, ?_, ?_⟩
      · rw [List.map_cons, List.map_cons, face, faces]
      · rw [List.map_cons, List.map_cons, newline, rereads.newline, newlines, hasLineEnd_append,
          Bool.or_comm, List.modifyHead_cons]
      · rw [remains']
        exact id

end Scanner

/-- A text with another one put in at an offset. -/
def insertAt (source : String) (offset : Nat) (inserted : String) : String :=
  String.ofList (takeBytes offset source.toList) ++ inserted ++
    String.ofList (dropBytes offset source.toList)

theorem toList_insertAt {source : String} {passed rest : List Char}
    (text : source.toList = passed ++ rest) (inserted : String) :
    (insertAt source (byteSize passed) inserted).toList =
      passed ++ (inserted.toList ++ rest) := by
  rw [insertAt, text, takeBytes_append, dropBytes_append, String.toList_append,
    String.toList_append, String.toList_ofList, String.toList_ofList, List.append_assoc]

theorem lastStop_concat (offset : Nat) (tokens : List Token) (token : Token) :
    lastStop offset (tokens ++ [token]) = token.span.stop.offset := by
  induction tokens generalizing offset with
  | nil => rfl
  | cons first tokens induction => exact induction first.span.stop.offset

open Scanner in
/-- Blanks may be put behind every token of a text. The tokens stay what they are, and
only the next one may come behind a line end that was not there. -/
theorem tokenize_insertAt {source : String} {tokens : List Token}
    (found : tokenize source = .ok tokens) {index : Nat} {token : Token}
    (isToken : tokens[index]? = some token) {blanks : String}
    (blank : ∀ c ∈ blanks.toList, Text.isBlank c = true) :
    ∃ tokens', tokenize (insertAt source token.span.stop.offset blanks) = .ok tokens' ∧
      tokens'.map (·.face) = tokens.map (·.face) ∧
      tokens'.map (·.newlineBefore) = (tokens.map (·.newlineBefore)).modify (index + 1)
        (· || Text.hasLineEnd blanks.toList) := by
  rcases tokenize_eq_ok_iff.mp found with ⟨last, theEnd, final, scanned, run, isEnd⟩
  rcases List.getElem?_eq_some_iff.mp isToken with ⟨within, rfl⟩
  rw [← List.take_append_drop (index + 1) tokens] at scanned
  rcases scanned.split with ⟨middle, first, second⟩
  have offset : middle.cursor.position.offset = tokens[index].span.stop.offset := by
    rw [((first.tiles ⟨rfl, placed_ofString source⟩).2.2).1, ← List.take_append_getElem within,
      lastStop_concat]
  rcases (first.tiles ⟨rfl, placed_ofString source⟩).2.1 with ⟨whole, front, text, size⟩
  rcases first.rereads with ⟨front', text', -, again⟩
  cases List.append_cancel_right ((whole.symm.trans text).symm.trans text')
  have inserted := toList_insertAt (whole.symm.trans text) blanks
  rw [← size, offset] at inserted
  generalize insertAt source tokens[index].span.stop.offset blanks = changed at inserted ⊢
  have severed : Severed middle.cursor.rest (blanks.toList ++ middle.cursor.rest) := by
    cases chars : blanks.toList with
    | nil => exact .inl rfl
    | cons c others =>
        rw [chars] at blank
        refine .inr fun d head => ?_
        cases head
        exact blank c (List.mem_cons_self ..)
  rcases again _ severed (ofString changed) inserted rfl with
    ⟨tokens₁, middle', first', faces₁, newlines₁, remains, braces⟩
  rcases second.behind_blanks blank remains braces with
    ⟨tokens₂, last', second', faces₂, newlines₂, trivia⟩
  rcases next_end_achieves (trivia (next_end_trivia _ _ _ run isEnd)) with
    ⟨theEnd', final', run', isEnd'⟩
  refine ⟨tokens₁ ++ tokens₂,
    tokenize_eq_ok_iff.mpr ⟨last', theEnd', final', first'.append second', run', isEnd'⟩, ?_, ?_⟩
  · rw [List.map_append, faces₁, faces₂, ← List.map_append, List.take_append_drop]
  · rw [List.map_append, newlines₁, newlines₂, List.modify_eq_take_drop, List.map_take,
      List.map_drop]

/-- A conditional stays one, and the number after its mark is not taken for an optional
link. -/
theorem tokenize_insertAt_conditional : ∃ tokens,
    tokenize (insertAt "a?.5:b" 2 "\n ") = .ok tokens ∧
      tokens.map (·.raw) = ["a", "?", ".5", ":", "b"] ∧
      tokens.map (·.newlineBefore) = [false, false, true, false, false] := by
  have shown : (tokenize "a?.5:b").toOption.map
      (fun tokens => (tokens.map (·.raw), tokens.map (·.newlineBefore),
        tokens.map (·.span.stop.offset))) =
      some (["a", "?", ".5", ":", "b"], [false, false, false, false, false], [1, 2, 4, 5, 6]) := by
    decide +kernel
  cases found : tokenize "a?.5:b" with
  | error error =>
      rw [found] at shown
      cases shown
  | ok tokens =>
      rw [found] at shown
      simp only [Except.toOption, Option.map_some, Option.some.injEq, Prod.mk.injEq] at shown
      rcases shown with ⟨raws, newlines, stops⟩
      have stop : (tokens[1]?).map (·.span.stop.offset) = some 2 := by
        rw [← List.getElem?_map, stops]
        rfl
      rcases Option.map_eq_some_iff.mp stop with ⟨token, isToken, stop⟩
      have blank : ∀ c ∈ "\n ".toList, Text.isBlank c = true := by
        rw [← List.all_eq_true]
        decide
      rcases tokenize_insertAt found isToken blank with ⟨tokens', found', faces, newlines'⟩
      rw [stop] at found'
      refine ⟨tokens', found', ?_, ?_⟩
      · have raw : ∀ tokens : List Token,
            tokens.map (·.raw) = (tokens.map (·.face)).map (·.2.2.1) := by
          intro tokens
          rw [List.map_map]
          rfl
        rw [raw, faces, ← raw, raws]
      · rw [newlines', newlines]
        rfl

end ExprScript
