import ExprScript.Proofs.Token.Rereading

/-! # Places of a text

The line and the column of a place are counted along the text. Here they are read
off the text that lies before the place, and a cursor that counts along agrees, as
far as its counters of 32 bits go.
-/

namespace ExprScript

/-! ## Lines -/

/-- The number of line breaks in a text. A carriage return and the line feed after
it are one. -/
def lineBreaks : List Char → Nat
  | [] => 0
  | '\r' :: '\n' :: rest => lineBreaks rest + 1
  | c :: rest => lineBreaks rest + if Text.isLineTerminator c then 1 else 0

def lastLine (text : List Char) : List Char :=
  text.rtakeWhile fun c => !Text.isLineTerminator c

def Apart (left right : List Char) : Prop :=
  ¬ (left.getLast? = some '\r' ∧ right.head? = some '\n')

theorem lineBreaks_append {left right : List Char} (apart : Apart left right) :
    lineBreaks (left ++ right) = lineBreaks left + lineBreaks right := by
  fun_induction lineBreaks left with
  | case1 => exact (Nat.zero_add _).symm
  | case2 rest induction =>
      have apart' : Apart rest right := by
        cases rest with
        | nil => exact fun both => absurd both.1 (by simp)
        | cons c rest => exact fun both => apart ⟨by simpa using both.1, both.2⟩
      simp only [List.cons_append, lineBreaks, induction apart']
      omega
  | case3 c rest notPair induction =>
      have apart' : Apart rest right := by
        cases rest with
        | nil => exact fun both => absurd both.1 (by simp)
        | cons c rest => exact fun both => apart ⟨by simpa using both.1, both.2⟩
      -- The first character and the one behind it are no pair, also across the border.
      have notPair' : ∀ others, c = '\r' → rest ++ right = '\n' :: others → False := by
        intro others isReturn follows
        cases rest with
        | nil => exact apart ⟨by simp [isReturn], by simp [show right = _ from follows]⟩
        | cons d rest =>
            cases follows
            exact notPair rest isReturn rfl
      rw [List.cons_append, lineBreaks.eq_3 _ _ notPair', induction apart']
      omega

theorem lastLine_ends (text : List Char) {c : Char} (ends : Text.isLineTerminator c = true) :
    lastLine (text ++ [c]) = [] :=
  List.rtakeWhile_concat_neg _ _ _ (by simp [ends])

theorem lastLine_goesOn (text : List Char) {c : Char} (goesOn : Text.isLineTerminator c = false) :
    lastLine (text ++ [c]) = lastLine text ++ [c] :=
  List.rtakeWhile_concat_pos _ _ _ (by simp [goesOn])

theorem lineBreaks_le_length (text : List Char) : lineBreaks text ≤ text.length := by
  fun_induction lineBreaks text with
  | case1 => exact Nat.le_refl _
  | case2 rest induction =>
      simp only [List.length_cons]
      omega
  | case3 c rest notPair induction =>
      rw [List.length_cons]
      split <;> omega

theorem length_lastLine_le (text : List Char) : (lastLine text).length ≤ text.length :=
  (List.rtakeWhile_suffix _ text).length_le

def lineBehind (passed : List Char) : Nat := lineBreaks passed + 1

def columnBehind (passed : List Char) : Nat := (lastLine passed).length + 1

def Position.behind (passed : List Char) : Position :=
  { offset := byteSize passed
    line := .ofNat (lineBehind passed)
    column := .ofNat (columnBehind passed) }

def lineStartBehind (passed : List Char) : Nat := byteSize passed - byteSize (lastLine passed)

/-- The position is a place of the source, with the line and the column that the text
before it has. -/
def Position.Marks (source : List Char) (position : Position) : Prop :=
  ∃ passed rest, source = passed ++ rest ∧ position = .behind passed

theorem Position.Marks.offset_le {source : List Char} {position : Position}
    (marks : position.Marks source) : position.offset ≤ byteSize source := by
  rcases marks with ⟨passed, rest, rfl, rfl⟩
  rw [byteSize_append]
  exact Nat.le_add_right _ _

theorem Position.Marks.isUnknown {source : List Char} {position : Position}
    (marks : position.Marks source) : position.isUnknown = false := by
  rcases marks with ⟨passed, rest, -, rfl⟩
  cases passed with
  | nil => rfl
  | cons c passed =>
      have known : Position.behind (c :: passed) ≠ {} := by
        intro equal
        have empty : byteSize (c :: passed) = 0 := congrArg Position.offset equal
        have := c.utf8Size_pos
        rw [byteSize_cons] at empty
        omega
      exact beq_eq_false_iff_ne.mpr known

/-- The line and the column are those of the offset, up to the multiples of `2 ^ 32` that
counters of 32 bits leave out. A text that is short enough has no such multiples. -/
structure Position.Counts (source : List Char) (position : Position) : Prop where
  offset : position.offset = byteSize (takeBytes position.offset source)
  line : position.line.toNat = lineBehind (takeBytes position.offset source) % 2 ^ 32
  column : position.column.toNat = columnBehind (takeBytes position.offset source) % 2 ^ 32
  line_eq : source.length + 1 < 2 ^ 32 →
    position.line.toNat = lineBehind (takeBytes position.offset source)
  column_eq : source.length + 1 < 2 ^ 32 →
    position.column.toNat = columnBehind (takeBytes position.offset source)

theorem Position.Marks.counts {source : List Char} {position : Position}
    (marks : position.Marks source) : position.Counts source := by
  rcases marks with ⟨passed, rest, text, rfl⟩
  have before : takeBytes (Position.behind passed).offset source = passed := by
    rw [text]
    exact takeBytes_append passed rest
  have length : passed.length ≤ source.length := by simp [text]
  have line : (Position.behind passed).line.toNat = lineBehind passed % 2 ^ 32 :=
    UInt32.toNat_ofNat'
  have column : (Position.behind passed).column.toNat = columnBehind passed % 2 ^ 32 :=
    UInt32.toNat_ofNat'
  constructor <;> rw [before]
  · rfl
  · exact line
  · exact column
  · intro short
    have := lineBreaks_le_length passed
    rw [line, Nat.mod_eq_of_lt (by unfold lineBehind; omega)]
  · intro short
    have := length_lastLine_le passed
    rw [column, Nat.mod_eq_of_lt (by unfold columnBehind; omega)]

theorem column_behind_spaces (count : Nat) :
    (Position.behind (List.replicate count ' ')).column.toNat = (count + 1) % 2 ^ 32 ∧
      columnBehind (takeBytes (Position.behind (List.replicate count ' ')).offset
        (List.replicate count ' ')) = count + 1 := by
  have line : lastLine (List.replicate count ' ') = List.replicate count ' ' := by
    apply List.rtakeWhile_eq_self_iff.mpr
    intro c member
    rw [List.eq_of_mem_replicate member]
    rfl
  have column : columnBehind (List.replicate count ' ') = count + 1 := by
    rw [columnBehind, line, List.length_replicate]
  have whole := takeBytes_append (List.replicate count ' ') []
  rw [List.append_nil] at whole
  have counted : (Position.behind (List.replicate count ' ')).column.toNat =
      columnBehind (List.replicate count ' ') % 2 ^ 32 := UInt32.toNat_ofNat'
  exact ⟨by rw [counted, column], (congrArg columnBehind whole).trans column⟩

/-! ## Cursors -/

def Cursor.Located (source : List Char) (cursor : Cursor) : Prop :=
  ∃ passed, source = passed ++ cursor.rest ∧ cursor.position = .behind passed ∧
    cursor.lineStart = lineStartBehind passed ∧ Apart passed cursor.rest

namespace Cursor.Located

variable {source : List Char} {cursor : Cursor}

theorem marks (located : cursor.Located source) : cursor.position.Marks source := by
  rcases located with ⟨passed, text, position, -, -⟩
  exact ⟨passed, cursor.rest, text, position⟩

theorem ofString (source : String) : (Cursor.ofString source).Located source.toList :=
  ⟨[], rfl, rfl, rfl, fun both => nomatch both.1⟩

/-- A step over a line break. -/
theorem stepLine (ending : List Char) {last : Char} {rest passed : List Char}
    (text : source = passed ++ (ending ++ [last] ++ rest))
    (position : cursor.position = .behind passed) (apart : Apart passed (ending ++ [last]))
    (single : lineBreaks (ending ++ [last]) = 1) (ends : Text.isLineTerminator last = true)
    (apart' : Apart (ending ++ [last]) rest) :
    (cursor.stepLine (byteSize (ending ++ [last])) rest).Located source := by
  have line : lastLine (passed ++ (ending ++ [last])) = [] := by
    rw [← List.append_assoc]
    exact lastLine_ends _ ends
  refine ⟨passed ++ (ending ++ [last]), ?_, ?_, ?_, ?_⟩
  · rw [text]
    exact (List.append_assoc ..).symm
  · simp only [Cursor.stepLine, Position.behind, lineBehind, columnBehind, position, line,
      lineBreaks_append apart, single, byteSize_append passed, UInt32.ofNat_add]
    rfl
  · simp only [Cursor.stepLine, lineStartBehind, position, line, Position.behind,
      byteSize_append passed]
    rfl
  · exact fun both => apart' ⟨by simpa using both.1, both.2⟩

/-- A step within a line. -/
theorem stepColumn {c : Char} {rest passed : List Char} (text : source = passed ++ c :: rest)
    (position : cursor.position = .behind passed)
    (lineStart : cursor.lineStart = lineStartBehind passed)
    (goesOn : Text.isLineTerminator c = false) :
    (cursor.stepColumn c.utf8Size rest).Located source := by
  have notReturn : c ≠ '\r' := by
    rintro rfl
    cases goesOn
  have notFeed : c ≠ '\n' := by
    rintro rfl
    cases goesOn
  have single : lineBreaks [c] = 0 := by
    rw [lineBreaks.eq_3 _ _ (by simp), goesOn]
    rfl
  have breaks : lineBreaks (passed ++ [c]) = lineBreaks passed := by
    rw [lineBreaks_append fun both => notFeed (by simpa using both.2), single, Nat.add_zero]
  have line := lastLine_goesOn passed goesOn
  refine ⟨passed ++ [c], ?_, ?_, ?_, ?_⟩
  · rw [text, List.append_assoc]
    rfl
  · simp only [Cursor.stepColumn, Position.behind, lineBehind, columnBehind, position, breaks,
      line, byteSize_append, byteSize_cons, byteSize_nil, List.length_append, List.length_cons,
      List.length_nil, UInt32.ofNat_add]
    rfl
  · simp only [Cursor.stepColumn, lineStart, lineStartBehind, line, byteSize_append]
    omega
  · exact fun both => notReturn (by simpa using both.1)

theorem advance (located : cursor.Located source) : cursor.advance.Located source := by
  rcases located with ⟨passed, text, position, lineStart, apart⟩
  unfold Cursor.advance
  split
  · next empty => exact ⟨passed, text, position, lineStart, apart⟩
  · next rest equal =>
      rw [equal] at text apart
      exact stepLine ['\r'] text position apart rfl rfl fun both => nomatch both.1
  · next c rest notPair equal =>
      rw [equal] at text apart
      split
      · next ends =>
          have size : byteSize ([] ++ [c]) = c.utf8Size := Nat.add_zero _
          rw [← size]
          refine stepLine [] text position apart ?_ ends ?_
          · rw [List.nil_append, lineBreaks.eq_3 _ _ (by simp), ends]
            rfl
          · intro both
            rcases List.head?_eq_some_iff.mp both.2 with ⟨others, follows⟩
            exact notPair others (by simpa using both.1) follows
      · next goesOn => exact stepColumn text position lineStart (by simpa using goesOn)

end Cursor.Located

/-! ## Readers -/

abbrev Error.Marks (source : List Char) (error : Error) : Prop := error.position.Marks source

structure Error.Rejects (source : List Char) (error : Error) : Prop where
  marks : error.Marks source
  kind : error.kind = .syntaxError

namespace Reader

variable {source : List Char} {α β : Type}

/-- From a place of the source the reader comes to another one, also where it fails, which it
does with a syntax error at a place of the source. -/
def Tracks (source : List Char) (reader : Reader α) : Prop :=
  Upholds (Error.Rejects source) (Cursor.Located source) reader

namespace Tracks

theorem pure (result : α) : Tracks source (Pure.pure result) := Upholds.pure result

theorem fail (cause : Cause) {position : Position} (marks : position.Marks source)
    (isSyntax : cause.kind = .syntaxError) :
    Tracks source (fail cause position : Reader α) :=
  Upholds.throw ⟨marks, isSyntax⟩

theorem bind {reader : Reader α} {next : α → Reader β} (tracks : Tracks source reader)
    (rest : ∀ value, Tracks source (next value)) : Tracks source (reader >>= next) :=
  Upholds.bind tracks rest

theorem get {next : Cursor → Reader α}
    (tracks : ∀ cursor : Cursor, cursor.Located source → Tracks source (next cursor)) :
    Tracks source (MonadState.get >>= next) :=
  Upholds.get tracks

theorem set {cursor : Cursor} (located : cursor.Located source) :
    Tracks source (MonadStateOf.set cursor) :=
  fun _ _ => located

theorem position {next : Position → Reader α}
    (tracks : ∀ place : Position, place.Marks source → Tracks source (next place)) :
    Tracks source (position >>= next) :=
  fun before located => tracks _ located.marks before located

theorem peek? : Tracks source peek? := fun _ located => located

theorem peekSecond? : Tracks source peekSecond? := fun _ located => located

theorem skip : Tracks source skip := fun _ located => located.advance

theorem advance? : Tracks source advance? := fun _ located => located.advance

theorem ite {condition : Prop} [Decidable condition] {first second : Reader α}
    (whenTrue : Tracks source first) (whenFalse : Tracks source second) :
    Tracks source (if condition then first else second) :=
  Upholds.ite whenTrue whenFalse

theorem loop {round : α → Reader (Round α β)} (tracks : ∀ value, Tracks source (round value))
    (value : α) : Tracks source (loop round value) :=
  get fun _ _ => Upholds.repeatWithin tracks (position fun _ marks => fail _ marks rfl) _ value

end Tracks

/-! ## The readers of tokens -/

theorem skipWhile_tracks (drop : Char → Bool) : Tracks source (skipWhile drop) := by
  apply Tracks.loop
  intro _
  apply Tracks.bind .peek?
  intro next
  split
  · exact .ite (.bind .skip fun _ => .pure _) (.pure _)
  · exact .pure _

theorem capture_tracks {reader : Reader α} (tracks : Tracks source reader) :
    Tracks source (capture reader) :=
  .get fun _ _ => .bind tracks fun _ => .get fun _ _ => .pure _

theorem skipBlockComment_tracks : Tracks source skipBlockComment := by
  apply Tracks.position
  intro start marks
  apply Tracks.bind .skip
  intro _
  apply Tracks.bind .skip
  intro _
  apply Tracks.loop
  intro _
  apply Tracks.bind .peek?
  intro next
  split
  · exact .fail _ marks rfl
  · apply Tracks.bind .peekSecond?
    intro _
    exact .ite (.bind .skip fun _ => .bind .skip fun _ => .pure _) (.bind .skip fun _ => .pure _)

theorem skipTrivia_tracks : Tracks source skipTrivia := by
  apply Tracks.loop
  intro _
  apply Tracks.bind .peek?
  intro next
  split
  · exact .pure _
  · apply Tracks.ite (.bind .skip fun _ => .pure _)
    apply Tracks.bind .peekSecond?
    intro _
    apply Tracks.ite (.bind (skipWhile_tracks _) fun _ => .pure _)
    apply Tracks.bind .peekSecond?
    intro _
    exact .ite (.bind skipBlockComment_tracks fun _ => .pure _) (.pure _)

theorem peekDigit?_tracks (radix : Nat) : Tracks source (peekDigit? radix) :=
  .bind .peek? fun _ => .pure _

theorem readDigitsUpTo_tracks (radix count value : Nat) :
    Tracks source (readDigitsUpTo radix count value) := by
  induction count generalizing value with
  | zero => exact .pure _
  | succ count induction =>
      apply Tracks.bind (peekDigit?_tracks radix)
      intro digit
      split
      · exact .bind .skip fun _ => induction _
      · exact .pure _

section

variable {start : Position} (marks : start.Marks source)

include marks

theorem readHexDigits_tracks (count value : Nat) :
    Tracks source (readHexDigits start count value) := by
  induction count generalizing value with
  | zero => exact .pure _
  | succ count induction =>
      apply Tracks.bind (peekDigit?_tracks 16)
      intro digit
      split
      · exact .bind .skip fun _ => induction _
      · exact .fail _ marks rfl

theorem readBracedCode_tracks : Tracks source (readBracedCode start) := by
  apply Tracks.bind .skip
  intro _
  apply Tracks.bind
  · apply Tracks.loop
    intro _
    apply Tracks.bind (peekDigit?_tracks 16)
    intro digit
    split
    · exact .bind .skip fun _ => .pure _
    · exact .pure _
  · intro _
    apply Tracks.bind .peek?
    intro _
    apply Tracks.ite (.bind (.fail _ marks rfl) fun _ => .bind .skip fun _ => .pure _)
    exact .bind .skip fun _ => .pure _

theorem readUnicodeCode_tracks : Tracks source (readUnicodeCode start) :=
  .bind .peek? fun _ => .ite (readBracedCode_tracks marks) (readHexDigits_tracks marks 4 0)

theorem readUnicodeEscape_tracks : Tracks source (readUnicodeEscape start) := by
  apply Tracks.bind (readUnicodeCode_tracks marks)
  intro code
  apply Tracks.get
  intro cursor located
  apply Tracks.ite _ (.pure _)
  -- The second escape is read from the cursor behind its first two characters.
  have second := (readUnicodeCode_tracks marks).yields located.advance.advance
  split
  · next low after run =>
      exact .ite (.bind (.set (second.ensures _ _ run)) fun _ => .pure _) (.pure _)
  · exact .bind (.pure _) fun _ => .pure _

theorem readHexEscape_tracks : Tracks source (readHexEscape start) := by
  apply Tracks.bind .advance?
  intro _
  apply Tracks.bind .advance?
  intro _
  dsimp only
  split
  · exact .pure _
  · exact .fail _ marks rfl

theorem readDigitEscape_tracks (inTemplate : Bool) (digit : Char) :
    Tracks source (readDigitEscape start inTemplate digit) := by
  have octal : Tracks source (do
      let value := digit.toNat - '0'.toNat
      let code ← readDigitsUpTo 8 (if value ≤ 3 then 2 else 1) value
      return { character? := some (charOfCode code), octal := true } : Reader Escape) :=
    .bind (readDigitsUpTo_tracks _ _ _) fun _ => .pure _
  apply Tracks.bind .peek?
  intro _
  apply Tracks.ite (.pure _)
  apply Tracks.ite
  · exact .ite (.bind (.fail _ marks rfl) fun _ => octal) octal
  · exact .ite (.bind (.fail _ marks rfl) fun _ => .pure _) (.pure _)

theorem readEscape_tracks (inTemplate : Bool) : Tracks source (readEscape start inTemplate) := by
  apply Tracks.bind .advance?
  intro next
  split
  · exact .fail _ marks rfl
  · split
    · exact .pure _
    · apply Tracks.ite (.pure _)
      apply Tracks.ite (.bind (readHexEscape_tracks marks) fun _ => .pure _)
      apply Tracks.ite (.bind (readUnicodeEscape_tracks marks) fun _ => .pure _)
      exact .ite (readDigitEscape_tracks marks inTemplate _) (.pure _)

theorem readString_tracks : Tracks source (readString start) := by
  apply Tracks.bind .advance?
  intro quote
  split
  · exact .fail _ marks rfl
  · apply Tracks.bind _ fun _ => .pure _
    apply Tracks.loop
    intro _
    apply Tracks.bind .peek?
    intro next
    split
    · exact .fail _ marks rfl
    · exact .fail _ marks rfl
    · exact .fail _ marks rfl
    · apply Tracks.ite (.bind .skip fun _ => .pure _)
      apply Tracks.ite _ (.bind .skip fun _ => .pure _)
      apply Tracks.position
      intro _ marks'
      exact .bind .skip fun _ => .bind (readEscape_tracks marks' false) fun _ => .pure _

theorem readTemplatePiece_tracks : Tracks source (readTemplatePiece start) := by
  apply Tracks.get
  intro body _
  apply Tracks.loop
  intro _
  apply Tracks.bind .peek?
  intro next
  split
  · exact .fail _ marks rfl
  · apply Tracks.ite (.get fun _ _ => .bind .skip fun _ => .pure _)
    apply Tracks.bind .peekSecond?
    intro _
    apply Tracks.ite (.get fun _ _ => .bind .skip fun _ => .bind .skip fun _ => .pure _)
    apply Tracks.ite _ (.bind .skip fun _ => .pure _)
    apply Tracks.position
    intro _ marks'
    exact .bind .skip fun _ => .bind (readEscape_tracks marks' true) fun _ => .pure _

end

/-! ## Numbers -/

theorem readDigits_tracks (radix : Nat) : Tracks source (readDigits radix) := by
  apply Tracks.bind _ fun _ => .pure _
  apply Tracks.loop
  intro ⟨reversed, afterSeparator⟩
  have refuses : ∀ (cause : Cause) {γ : Type}, cause.kind = .syntaxError → Tracks source (do
      fail cause (← Reader.position) : Reader γ) :=
    fun cause _ isSyntax => .position fun _ marks => .fail _ marks isSyntax
  apply Tracks.bind .peek?
  intro next
  dsimp only
  split
  · apply Tracks.ite
    · have separator : Tracks source (do
          if afterSeparator then fail .repeatedSeparator (← Reader.position)
          skip
          return .again (reversed, true) : Reader (Round (List Char × Bool) (List Char))) :=
        .ite (.position fun _ marks => .bind (.fail _ marks rfl) fun _ =>
          .bind .skip fun _ => .pure _) (.bind .skip fun _ => .pure _)
      exact .ite (.position fun _ marks => .bind (.fail _ marks rfl) fun _ => separator) separator
    · exact .ite (.bind .skip fun _ => .pure _) (.ite (refuses _ rfl) (.pure _))
  · exact .ite (.position fun _ marks => .bind (.fail _ marks rfl) fun _ => .pure _) (.pure _)

theorem readFraction_tracks : Tracks source readFraction :=
  .bind .peek? fun _ => .ite (.bind .skip fun _ => readDigits_tracks 10) (.pure _)

theorem readSign_tracks : Tracks source readSign := by
  apply Tracks.bind .peek?
  intro next
  split
  · exact .bind .skip fun _ => .pure _
  · exact .bind .skip fun _ => .pure _
  · exact .pure _

theorem readExponent_tracks : Tracks source readExponent := by
  apply Tracks.position
  intro start marks
  apply Tracks.bind .peek?
  intro next
  split
  · apply Tracks.ite _ (.pure _)
    apply Tracks.bind .skip
    intro _
    apply Tracks.bind readSign_tracks
    intro _
    apply Tracks.bind (readDigits_tracks 10)
    intro _
    exact .ite (.bind (.fail _ marks rfl) fun _ => .pure _) (.pure _)
  · exact .pure _

theorem readDecimalTail_tracks (whole : List Char) : Tracks source (readDecimalTail whole) :=
  .bind readFraction_tracks fun _ => .bind readExponent_tracks fun _ => .pure _

theorem readDecimal_tracks : Tracks source readDecimal := by
  apply Tracks.bind .peek?
  intro _
  apply Tracks.ite
  · exact .bind (.pure _) readDecimalTail_tracks
  · exact .bind (readDigits_tracks 10) readDecimalTail_tracks

theorem skipMany_tracks (count : Nat) : Tracks source (skipMany count) := by
  induction count with
  | zero => exact .pure _
  | succ count induction => exact .bind .skip fun _ => induction

theorem readZeroNumeral_tracks : Tracks source readZeroNumeral := by
  apply Tracks.get
  intro _ _
  apply Tracks.bind (skipMany_tracks _)
  intro _
  apply Tracks.ite (.pure _)
  apply Tracks.bind .peek?
  intro _
  apply Tracks.ite _ (readDecimalTail_tracks _)
  exact .position fun _ marks => .bind (.fail _ marks rfl) fun _ => readDecimalTail_tracks _

section

variable {start : Position} (marks : start.Marks source)

include marks

theorem readRadixNumeral_tracks (radix : Nat) : Tracks source (readRadixNumeral radix start) := by
  apply Tracks.bind .skip
  intro _
  apply Tracks.bind .skip
  intro _
  apply Tracks.bind (readDigits_tracks radix)
  intro _
  exact .ite (.bind (.fail _ marks rfl) fun _ => .pure _) (.pure _)

theorem readNumeralBody_tracks : Tracks source (readNumeralBody start) := by
  have decimal : Tracks source (do return (← readDecimal, false) : Reader (Float × Bool)) :=
    .bind readDecimal_tracks fun _ => .pure _
  apply Tracks.bind .peek?
  intro _
  apply Tracks.ite decimal
  apply Tracks.bind .peekSecond?
  intro second
  split
  · exact decimal
  · split
    · exact .bind (readRadixNumeral_tracks marks _) fun _ => .pure _
    · apply Tracks.ite
      · exact .bind .skip fun _ => .position fun _ marks' => .fail _ marks' rfl
      · exact .ite (.bind readZeroNumeral_tracks fun _ => .pure _) decimal

theorem readNumeral_tracks : Tracks source (readNumeral start) := by
  apply Tracks.bind (readNumeralBody_tracks marks)
  intro _
  apply Tracks.bind .peek?
  intro _
  exact .ite (.bind (.fail _ marks rfl) fun _ => .pure _) (.pure _)

end

/-! ## Names and regular expressions -/

theorem readNameEscape_tracks (atStart : Bool) : Tracks source (readNameEscape atStart) := by
  apply Tracks.position
  intro start marks
  have code : Tracks source (do
      let code ← readUnicodeCode start
      if code.isValidChar && fitsName atStart (Char.ofNat code) then
        Pure.pure (Char.ofNat code)
      else fail .invalidUnicodeEscape start : Reader Char) :=
    .bind (readUnicodeCode_tracks marks) fun _ => .ite (.pure _) (.fail _ marks rfl)
  apply Tracks.bind .skip
  intro _
  apply Tracks.bind .advance?
  intro _
  exact .ite (.bind (.fail _ marks rfl) fun _ => code) code

theorem readNameText_tracks : Tracks source readNameText := by
  apply Tracks.bind _ fun _ => .pure _
  apply Tracks.loop
  intro _
  apply Tracks.bind .peek?
  intro next
  split
  · apply Tracks.ite (.bind (readNameEscape_tracks _) fun _ => .pure _)
    exact .ite (.bind .skip fun _ => .pure _) (.pure _)
  · exact .pure _

theorem readName_tracks {start : Position} (marks : start.Marks source) :
    Tracks source (readName start) := by
  apply Tracks.bind readNameText_tracks
  intro ⟨name, escaped⟩
  dsimp only
  split
  · exact .ite (.bind (.fail _ marks rfl) fun _ => .pure _) (.pure _)
  · exact .pure _

end Reader

namespace Scanner

open Reader

variable {source : List Char} {start : Position} (marks : start.Marks source)

include marks

/-- The character behind a backslash. -/
theorem readRegExpEscaped_tracks (inClass : Bool) : Tracks source (do
    match ← Reader.peek? with
    | some escaped =>
      if Text.isLineTerminator escaped then Reader.fail .unterminatedRegExp start
      Reader.skip
      return .again inClass
    | none => Reader.fail .unterminatedRegExp start : Reader (Round Bool Unit)) := by
  apply Tracks.bind .peek?
  intro next
  split
  · apply Tracks.ite (.bind (.fail _ marks rfl) fun _ => .bind .skip fun _ => .pure _)
    exact .bind .skip fun _ => .pure _
  · exact .fail _ marks rfl

theorem readRegExpBody_tracks : Tracks source (readRegExpBody start) := by
  apply Tracks.loop
  intro inClass
  apply Tracks.bind .peek?
  intro next
  split
  · exact .fail _ marks rfl
  · apply Tracks.ite (.fail _ marks rfl)
    apply Tracks.ite (.bind .skip fun _ => .pure _)
    apply Tracks.ite (.bind .skip fun _ => .pure _)
    apply Tracks.ite (.pure _)
    apply Tracks.ite (.bind .skip fun _ => readRegExpEscaped_tracks marks inClass)
    exact .bind .skip fun _ => .pure _

theorem readRegExp_tracks : Tracks source (readRegExp start) := by
  apply Tracks.bind .skip
  intro _
  apply Tracks.bind (capture_tracks (readRegExpBody_tracks marks))
  intro _
  apply Tracks.bind .skip
  intro _
  exact .bind (capture_tracks (skipWhile_tracks _)) fun _ => .pure _

end Scanner

end ExprScript
