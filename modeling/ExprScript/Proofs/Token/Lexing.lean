import ExprScript.Proofs.Number.Written
import ExprScript.Proofs.Token.Quoted
import ExprScript.Proofs.Token.Template

/-! # The tokens of a written text

A text is scanned token by token: what one token is made of depends only on the
character that follows it. `Lexes` says which tokens lie ahead of a scanner, and
`Scans` how the first of them is read.
-/

namespace ExprScript

/-! ## Punctuators -/

namespace Punctuator

def extensions (mark : Punctuator) : List Char :=
  longestFirst.filterMap fun longer =>
    if mark.spelling.toList.isPrefixOf longer.spelling.toList then
      longer.spelling.toList[mark.spelling.toList.length]?
    else none

theorem mem_longestFirst (mark : Punctuator) : mark ∈ longestFirst := by
  cases mark <;> decide

theorem mem_extensions {mark longer : Punctuator} {c : Char}
    (starts : mark.spelling.toList ++ [c] <+: longer.spelling.toList) : c ∈ mark.extensions := by
  rcases starts with ⟨tail, whole⟩
  rw [List.append_assoc] at whole
  apply List.mem_filterMap.mpr
  refine ⟨longer, mem_longestFirst longer, ?_⟩
  rw [if_pos (List.isPrefixOf_iff_prefix.mpr ⟨_, whole⟩), ← whole]
  simp

theorem mem_spelling_of_mem_extensions {mark : Punctuator} {c : Char}
    (member : c ∈ mark.extensions) : ∃ longer : Punctuator, c ∈ longer.spelling.toList := by
  rcases List.mem_filterMap.mp member with ⟨longer, -, goesOn⟩
  refine ⟨longer, ?_⟩
  split at goesOn
  · exact List.mem_of_getElem? goesOn
  · cases goesOn

theorem pairwise_longestFirst : longestFirst.Pairwise fun earlier later =>
    earlier.spelling.toList.isPrefixOf later.spelling.toList = false := by
  decide

end Punctuator

namespace Scanner

open Punctuator Reader

theorem punctuatorOf?_append (mark : Punctuator) {rest : List Char}
    (alone : ∀ c, rest.head? = some c → c ∉ mark.extensions)
    (noDigit : mark = .questionDot → rest.head?.any Char.isDigit = false) :
    punctuatorOf? (mark.spelling.toList ++ rest) = some mark := by
  rcases List.append_of_mem (mem_longestFirst mark) with ⟨earlier, later, parts⟩
  apply List.find?_eq_some_iff_append.mpr
  refine ⟨?_, earlier, later, parts, ?_⟩
  · simp only [List.drop_left, Bool.and_eq_true, Bool.not_eq_true', Bool.and_eq_false_iff,
      beq_eq_false_iff_ne]
    refine ⟨List.isPrefixOf_iff_prefix.mpr (List.prefix_append _ _), ?_⟩
    by_cases isLink : mark = .questionDot
    · exact .inr (noDigit isLink)
    · exact .inl isLink
  · intro other member
    have pairwise := pairwise_longestFirst
    rw [parts] at pairwise
    have notStart := (List.pairwise_append.mp pairwise).2.2 other member mark
      (List.mem_cons_self ..)
    simp only [Bool.not_eq_true', Bool.and_eq_false_iff]
    left
    -- A punctuator that is longer would go on with the first character of the rest.
    cases starts : other.spelling.toList.isPrefixOf (mark.spelling.toList ++ rest) with
    | false => rfl
    | true =>
        have whole := List.isPrefixOf_iff_prefix.mp starts
        have notStart : ¬ other.spelling.toList <+: mark.spelling.toList := by
          intro wrong
          rw [List.isPrefixOf_iff_prefix.mpr wrong] at notStart
          cases notStart
        have longer : ∀ c, rest.head? = some c →
            ¬ mark.spelling.toList ++ [c] <+: other.spelling.toList := by
          intro c head wrong
          exact alone c head (mem_extensions wrong)
        cases rest with
        | nil =>
            rw [List.append_nil] at whole
            exact absurd whole notStart
        | cons c rest =>
            have next : mark.spelling.toList ++ [c] <+: mark.spelling.toList ++ c :: rest :=
              (List.prefix_append_right_inj _).mpr ⟨rest, rfl⟩
            rcases List.prefix_or_prefix_of_prefix whole next with shorter | wrong
            · rcases List.prefix_concat_iff.mp shorter with equal | wrong
              · exact absurd (equal ▸ List.prefix_refl _) (longer c rfl)
              · exact absurd wrong notStart
            · exact absurd wrong (longer c rfl)

/-! ## The characters that tokens start with -/

def blankRanges : Text.CodeRanges :=
  [(0xa0, 0xa0), (0x1680, 0x1680), (0x2000, 0x200a), (0x2028, 0x2029), (0x202f, 0x202f),
   (0x205f, 0x205f), (0x3000, 0x3000), (0xfeff, 0xfeff)]

def namePartRanges : Text.CodeRanges :=
  (0, 127) :: (0x200c, 0x200d) :: (Text.alphabeticRanges ++ Text.numericRanges)

theorem namePartRanges_apart : ∀ blank ∈ blankRanges,
    (namePartRanges.all fun range => range.2.blt blank.1 || blank.2.blt range.1) = true := by
  decide +kernel

theorem range_of_isBlank {c : Char} (blank : Text.isBlank c = true) :
    c.toNat ≤ 32 ∨ ∃ range ∈ blankRanges, range.1 ≤ c.toNat ∧ c.toNat ≤ range.2 := by
  simp only [Text.isBlank, Text.isLineTerminator, Bool.or_eq_true, beq_iff_eq, Bool.and_eq_true,
    decide_eq_true_eq, Char.le_def, UInt32.le_iff_toNat_le, Char.toNat_val, or_assoc] at blank
  simp only [blankRanges, List.mem_cons, List.not_mem_nil, or_false, exists_eq_or_imp,
    exists_eq_left]
  rcases blank with rfl | rfl | rfl | rfl | rfl | rfl | rfl | between | rfl | rfl | rfl | rfl |
    rfl | rfl | rfl
  case inr.inr.inr.inr.inr.inr.inr.inl => exact .inr (.inr (.inr (.inl between)))
  all_goals decide

theorem range_of_isNamePart {c : Char} (part : Text.isNamePart c = true) :
    ∃ range ∈ namePartRanges, range.1 ≤ c.toNat ∧ c.toNat ≤ range.2 := by
  by_cases ascii : c.toNat < 128
  · exact ⟨(0, 127), by simp [namePartRanges], by omega, by omega⟩
  simp only [Text.isNamePart, Text.isAlphabetic, Text.isNumeric, ascii, if_false,
    Bool.or_eq_true, beq_iff_eq, or_assoc, Text.CodeRanges.contains, List.any_eq_true,
    Bool.and_eq_true, decide_eq_true_eq] at part
  simp only [namePartRanges, List.mem_cons, List.mem_append]
  rcases part with rfl | rfl | rfl | rfl | ⟨range, member, inside⟩ | ⟨range, member, inside⟩
  · exact absurd (by decide) ascii
  · exact absurd (by decide) ascii
  · exact ⟨(0x200c, 0x200d), .inr (.inl rfl), by decide⟩
  · exact ⟨(0x200c, 0x200d), .inr (.inl rfl), by decide⟩
  · exact ⟨range, .inr (.inr (.inl member)), inside⟩
  · exact ⟨range, .inr (.inr (.inr member)), inside⟩

theorem isBlank_of_isNamePart {c : Char} (part : Text.isNamePart c = true) :
    Text.isBlank c = false := by
  by_contra blank
  rw [Bool.not_eq_false] at blank
  rcases range_of_isBlank blank with control | ⟨blanks, isBlank, low, high⟩
  · have never : ∀ code ≤ 32, Text.isNamePart (Char.ofNat code) = false := by decide
    rw [← Char.ofNat_toNat c, never _ control] at part
    cases part
  · rcases range_of_isNamePart part with ⟨parts, isPart, low', high'⟩
    have apart := List.all_eq_true.mp (namePartRanges_apart blanks isBlank) parts isPart
    simp only [Bool.or_eq_true, Nat.blt_eq] at apart
    omega

theorem isBlank_of_isNameStart {c : Char} (starts : Text.isNameStart c = true) :
    Text.isBlank c = false :=
  isBlank_of_isNamePart (isNamePart_of_isNameStart starts)

theorem ne_of_isNameStart {c other : Char} (starts : Text.isNameStart c = true)
    (stops : Text.isNameStart other = false) : c ≠ other := by
  rintro rfl
  rw [stops] at starts
  cases starts

theorem not_isDigit_of_isNameStart {c : Char} (starts : Text.isNameStart c = true) :
    c.isDigit = false := by
  cases digit : c.isDigit with
  | false => rfl
  | true =>
      have ascii : c.toNat < 128 := by
        have bounds := (isDigit_iff c).mp digit
        omega
      simp only [Text.isNameStart, Text.isAlphabetic, ascii, if_true, Bool.or_eq_true,
        beq_iff_eq] at starts
      rcases starts with (rfl | rfl) | alpha
      · cases digit
      · cases digit
      · simp only [Char.isAlpha, Char.isUpper, Char.isLower, Char.isDigit, Bool.or_eq_true,
          Bool.and_eq_true, decide_eq_true_eq, UInt32.le_iff_toNat_le] at alpha digit
        simp at alpha digit
        omega

theorem noTrivia_cons {c : Char} {text : List Char} (notBlank : Text.isBlank c = false)
    (notSlash : c ≠ '/') : NoTrivia (c :: text) := by
  intro d head
  cases head
  exact ⟨notBlank, fun isSlash => absurd isSlash notSlash⟩

theorem isBlank_of_isDigit {c : Char} (digit : c.isDigit = true) :
    Text.isBlank c = false ∧ c ≠ '/' := by
  have digits : ∀ index < 10, Text.isBlank (Char.ofNat (48 + index)) = false ∧
      Char.ofNat (48 + index) ≠ '/' := by
    decide
  have bounds := (isDigit_iff c).mp digit
  have equal : c = Char.ofNat (48 + (c.toNat - 48)) := by
    rw [Nat.add_sub_cancel' bounds.1, Char.ofNat_toNat]
  rw [equal]
  exact digits _ (by omega)

/-! ## One token -/

def Lexeme.mark (mark : Punctuator) : Lexeme := (.punctuator mark, .none, false)

def Lexeme.word (name : String) : Lexeme := (kindOfWord name, .text name, false)

def Lexeme.number (value : Float) : Lexeme := (.numericLiteral, .number value, false)

def Lexeme.string (value : String) : Lexeme := (.stringLiteral, .text value, false)

def Lexeme.piece (kind : TokenKind) (cooked raw : String) : Lexeme :=
  (kind, .template cooked raw, false)

def Lexeme.regExp (pattern flags : String) : Lexeme :=
  (.regExpLiteral, .regExp pattern flags, false)

/-- From a text, the scanner reads a token and leaves the rest. Both depend on
the open braces. -/
structure Scans (braces : List Brace) (text : List Char) (lexeme : Lexeme)
    (after : List Brace) (rest : List Char) : Prop where
  noTrivia : NoTrivia text
  shorter : rest.length < text.length
  spelled : ∀ value, lexeme.2.1 = .number value → text = (Number.print value).toList ++ rest
  scans : ∀ start first scanner, text.head? = some first → scanner.cursor.rest = text →
    scanner.braces = braces → Achieves (scanLexeme start first) scanner fun found final =>
      found = lexeme ∧ final.cursor.rest = rest ∧ final.braces = after

variable {braces : List Brace} {rest : List Char}

theorem read_achieves {α : Type} {reader : Reader α} {text : List Char} {result : α}
    (takes : Takes reader text result rest) {scanner : Scanner}
    (equal : scanner.cursor.rest = text) :
    Achieves (read reader) scanner fun found after => found = result ∧
      after.cursor.rest = rest ∧ after = { scanner with cursor := after.cursor } := by
  rcases takes scanner.cursor equal with ⟨found, cursor, run, same, remains, -⟩
  refine ⟨found, { scanner with cursor }, ?_, same, remains, rfl⟩
  simp only [read, EStateM.run, run]

theorem scans_word {name : String} (text : NameText name.toList)
    (stops : Stops (fun c => Text.isNamePart c || c == '\\') rest) :
    Scans braces (name.toList ++ rest) (.word name) braces rest := by
  have takes := readName_takes text stops
  cases chars : name.toList with
  | nil =>
      rw [chars] at text
      exact text.elim
  | cons c others =>
      rw [chars] at text takes
      have starts : Text.isNameStart c = true := text.1
      have other := fun d => @ne_of_isNameStart c d starts
      refine ⟨noTrivia_cons (isBlank_of_isNameStart starts) (other '/' (by decide)), ?_, nofun, ?_⟩
      · rw [List.length_append, List.length_cons]
        omega
      rintro start first scanner head remains rfl
      cases head
      apply Achieves.get
      apply Achieves.iteFalse (by simp [other '\x22' (by decide), other '\x27' (by decide)])
      apply Achieves.iteFalse (by simp [other '\x60' (by decide)])
      apply Achieves.iteFalse (by simp [other '\x7d' (by decide)])
      apply Achieves.iteFalse
        (by simp [not_isDigit_of_isNameStart starts, other '.' (by decide)])
      apply Achieves.iteTrue (by simp [starts])
      apply Achieves.bind
      apply (read_achieves (takes start) remains).mono
      rintro found after ⟨rfl, remains, same⟩
      exact .pure ⟨rfl, remains, by rw [same]⟩

theorem scans_number {number : Float} (denotes : Number.Denotes (Number.print number).toList number)
    (ends : EndsNumber rest) :
    Scans braces ((Number.print number).toList ++ rest) (.number number) braces rest := by
  rcases denotes with ⟨whole, fraction, exponent, form, text, value⟩
  have takes := readNumeral_takes form ends
  have spelled : ∀ value, (Lexeme.number number).2.1 = .number value →
      (Number.print number).toList ++ rest = (Number.print value).toList ++ rest := by
    intro value isNumber
    cases isNumber
    rfl
  rw [value] at takes
  rw [text, List.append_assoc, List.append_assoc] at spelled ⊢
  cases whole with
  | nil => exact absurd rfl form.notEmpty
  | cons c whole =>
      have digit := form.wholeDigits c (List.mem_cons_self ..)
      have other : ∀ d : Char, d.isDigit = false → c ≠ d := by
        rintro d noDigit rfl
        rw [noDigit] at digit
        cases digit
      rcases isBlank_of_isDigit digit with ⟨notBlank, notSlash⟩
      refine ⟨noTrivia_cons notBlank notSlash, by simp; omega, spelled, ?_⟩
      rintro start first scanner head remains rfl
      cases head
      apply Achieves.get
      apply Achieves.iteFalse (by simp [other '\x22' rfl, other '\x27' rfl])
      apply Achieves.iteFalse (by simp [other '\x60' rfl])
      apply Achieves.iteFalse (by simp [other '\x7d' rfl])
      apply Achieves.iteTrue (by simp [digit])
      apply Achieves.bind
      apply (read_achieves (takes start) remains).mono
      rintro found after ⟨rfl, remains, same⟩
      exact .pure ⟨rfl, remains, by rw [same]⟩

theorem scans_string {escaping : Text.Escaping} (reads : ReadsEscaped escaping) (value : String) :
    Scans braces ((Text.quoteWith escaping value).toList ++ rest) (.string value) braces rest := by
  have takes := fun start => @readString_takes rest escaping reads value start
  have text : (Text.quoteWith escaping value).toList ++ rest =
      '\x22' :: (Text.escapeAll escaping value.toList ++ '\x22' :: rest) := by
    simp [Text.quoteWith]
  rw [text] at takes ⊢
  refine ⟨noTrivia_cons (by decide) (by decide), by simp; omega, by rintro _ ⟨⟩, ?_⟩
  rintro start first scanner head remains rfl
  cases head
  apply Achieves.get
  apply Achieves.iteTrue (by decide)
  apply Achieves.bind
  apply (read_achieves (takes start) remains).mono
  rintro found after ⟨rfl, remains, same⟩
  exact .pure ⟨rfl, remains, by rw [same]⟩

theorem scanTemplate_achieves {raw cooked : String} (start : Position)
    (text : TemplateText raw.toList cooked.toList) (opensHole : Bool) {opener : Char}
    (single : opener ≠ '\r') (withHole withoutHole : TokenKind) {scanner : Scanner}
    (remains : scanner.cursor.rest = opener :: (raw.toList ++ (pieceEnd opensHole ++ rest))) :
    Achieves (scanTemplate start withHole withoutHole) scanner fun found after =>
      found = (if opensHole then withHole else withoutHole, .template cooked raw) ∧
        after.cursor.rest = rest ∧
        after.braces = if opensHole then .hole :: scanner.braces else scanner.braces := by
  have takes := readTemplatePiece_takes start text opensHole rest
  apply Achieves.bind
  apply (read_achieves ((Takes.skip single).bind takes) remains).mono
  rintro found after ⟨rfl, unread, same⟩
  have braces : after.braces = scanner.braces := by rw [same]
  cases opensHole with
  | true =>
      apply Achieves.iteTrue rfl
      exact .modify (.pure ⟨rfl, unread, by rw [← braces]; rfl⟩)
  | false =>
      apply Achieves.iteFalse (by simp)
      exact .pure ⟨rfl, unread, braces⟩

/-- A template starts with a backquote. -/
theorem scans_opening {raw cooked : String} (text : TemplateText raw.toList cooked.toList)
    (opensHole : Bool) :
    Scans braces ('\x60' :: (raw.toList ++ (pieceEnd opensHole ++ rest)))
      (.piece (if opensHole then .templateHead else .noSubstitutionTemplate) cooked raw)
      (if opensHole then .hole :: braces else braces) rest := by
  refine ⟨noTrivia_cons (by decide) (by decide), by simp; omega, nofun, ?_⟩
  rintro start first scanner head remains rfl
  cases head
  apply Achieves.get
  apply Achieves.iteFalse (by decide)
  apply Achieves.iteTrue (by decide)
  apply Achieves.bind
  apply (scanTemplate_achieves start text opensHole (by decide) _ _ remains).mono
  rintro found after ⟨rfl, remains, braces⟩
  exact .pure ⟨rfl, remains, braces⟩

/-- A template goes on when the brace of a hole is closed. -/
theorem scans_resumption {raw cooked : String} (text : TemplateText raw.toList cooked.toList)
    (opensHole : Bool) :
    Scans (.hole :: braces) ('\x7d' :: (raw.toList ++ (pieceEnd opensHole ++ rest)))
      (.piece (if opensHole then .templateMiddle else .templateTail) cooked raw)
      (if opensHole then .hole :: braces else braces) rest := by
  refine ⟨noTrivia_cons (by decide) (by decide), by simp; omega, nofun, ?_⟩
  intro start first scanner head remains opened
  cases head
  apply Achieves.get
  apply Achieves.iteFalse (by decide)
  apply Achieves.iteFalse (by decide)
  apply Achieves.iteTrue (by simp [opened])
  apply Achieves.set
  apply Achieves.bind
  refine (@scanTemplate_achieves rest raw cooked start text opensHole '\x7d' (by decide) _ _
    { scanner with braces := scanner.braces.tail } remains).mono ?_
  rintro found after ⟨rfl, remains, equal⟩
  refine .pure ⟨rfl, remains, ?_⟩
  rw [equal, opened]
  rfl

theorem skipMany_takes {chunk : List Char} (single : '\r' ∉ chunk) :
    Takes (skipMany chunk.length) (chunk ++ rest) () rest := by
  induction chunk with
  | nil => exact .pure _
  | cons c chunk induction =>
      simp only [List.mem_cons, not_or] at single
      exact (Takes.skip fun isReturn => single.1 isReturn.symm).bind (induction single.2)

def bracesAfter (mark : Punctuator) (braces : List Brace) : List Brace :=
  match mark with
  | .leftBrace => .block :: braces
  | .rightBrace => braces.tail
  | _ => braces

theorem noteBrace_achieves (mark : Punctuator) (scanner : Scanner) :
    Achieves (noteBrace mark) scanner fun _ after =>
      after.cursor = scanner.cursor ∧ after.braces = bracesAfter mark scanner.braces :=
  ⟨(), _, rfl, by cases mark <;> exact ⟨rfl, rfl⟩⟩

/-- How a punctuator is told from the other tokens. Only a point may also start a
number, and only a slash a comment. -/
structure MarkStart (mark : Punctuator) (first : Char) (others : List Char) : Prop where
  spelling : mark.spelling.toList = first :: others
  single : '\r' ∉ first :: others
  notBlank : Text.isBlank first = false
  notQuote : first ≠ '\x22' ∧ first ≠ '\x27' ∧ first ≠ '\x60'
  notName : Text.isNameStart first = false ∧ first ≠ '\\'
  notDigit : first.isDigit = false
  brace : first = '\x7d' → mark = .rightBrace
  slash : first = '/' → others = [] ∧ mark = .slash ∨ others = ['=']
  point : first = '.' → others = [] ∧ mark = .dot ∨ others = ['.', '.']

theorem markStart (mark : Punctuator) : ∃ first others, MarkStart mark first others := by
  cases mark <;> exact ⟨_, _, rfl, by decide, by decide, by decide, by decide, by decide,
    by decide, by decide, by decide⟩

theorem scans_mark (mark : Punctuator)
    (alone : ∀ c, rest.head? = some c → c ∉ mark.extensions)
    (noDigit : mark = .questionDot ∨ mark = .dot → rest.head?.any Char.isDigit = false)
    (noComment : mark = .slash → rest.head? ≠ some '/' ∧ rest.head? ≠ some '*')
    (noHole : mark = .rightBrace → braces.head? ≠ some .hole) :
    Scans braces (mark.spelling.toList ++ rest) (.mark mark) (bracesAfter mark braces) rest := by
  have found := punctuatorOf?_append mark alone fun isLink => noDigit (.inl isLink)
  rcases markStart mark with ⟨first, others, start⟩
  rw [start.spelling] at found ⊢
  have noTrivia : NoTrivia (first :: others ++ rest) := by
    intro c head
    cases head
    refine ⟨start.notBlank, ?_⟩
    rintro rfl
    rcases start.slash rfl with ⟨rfl, isSlash⟩ | rfl
    · simpa [List.head?_eq_getElem?] using noComment isSlash
    · simp
  have noNumber : ¬ (first.isDigit || first == '.' &&
      (first :: others ++ rest)[1]?.any Char.isDigit) = true := by
    simp only [start.notDigit, Bool.false_or, Bool.and_eq_true, beq_iff_eq, not_and]
    rintro rfl
    rcases start.point rfl with ⟨rfl, isDot⟩ | rfl
    · simpa [List.head?_eq_getElem?] using noDigit (.inr isDot)
    · simp
  refine ⟨noTrivia, ?_, nofun, ?_⟩
  · rw [List.length_append, List.length_cons]
    omega
  rintro place c scanner head remains rfl
  cases head
  apply Achieves.get
  apply Achieves.iteFalse (by simp [start.notQuote])
  apply Achieves.iteFalse (by simp [start.notQuote])
  apply Achieves.iteFalse
  · simp only [Bool.and_eq_true, beq_iff_eq, not_and]
    exact fun isBrace => noHole (start.brace isBrace)
  apply Achieves.iteFalse
  · rw [Cursor.peekSecond?, remains]
    exact noNumber
  apply Achieves.iteFalse (by simp [start.notName])
  apply Achieves.bind
  apply Achieves.get
  dsimp only
  rw [remains, found]
  have takes : Takes (skipMany mark.spelling.length) (first :: others ++ rest) () rest := by
    rw [← String.length_toList, start.spelling]
    exact skipMany_takes start.single
  apply Achieves.bind
  apply (read_achieves takes remains).mono
  rintro _ after ⟨-, unread, same⟩
  have braces : after.braces = scanner.braces := by rw [same]
  apply Achieves.bind
  apply (noteBrace_achieves mark after).mono
  rintro _ final ⟨cursor, changed⟩
  exact .pure (.pure ⟨rfl, by rw [cursor, unread], by rw [changed, braces]⟩)

/-! ## All tokens -/

/-- The token is a lexeme that follows the one before it on the same line. A number
is written as it is printed. -/
structure Shows (token : Token) (lexeme : Lexeme) : Prop where
  lexeme : (token.kind, token.payload, token.octal) = lexeme
  sameLine : token.newlineBefore = false
  spelled : ∀ value, token.payload = .number value → token.raw = Number.print value

/-- Without trivia in front of it, the next token is what is read at the cursor. -/
theorem next_achieves {scanner : Scanner} {first : Char} {post : Lexeme → Scanner → Prop}
    (noTrivia : NoTrivia scanner.cursor.rest) (head : scanner.cursor.peek? = some first)
    (run : Achieves (scanLexeme scanner.cursor.position first) scanner post) :
    Achieves next scanner fun token final =>
      post (token.kind, token.payload, token.octal) final ∧ scanner.Passes final ∧
        token.newlineBefore = false ∧
        token.span = { start := scanner.cursor.position, stop := final.cursor.position } ∧
        token.raw = scanner.cursor.textUntil final.cursor := by
  apply Achieves.bind
  refine ⟨_, _, read_skipTrivia noTrivia, ?_⟩
  apply Achieves.get
  dsimp only
  rw [head]
  apply Achieves.bind
  apply (run.ensured (scanLexeme_advances head scanner.cursor.position).ensures).mono
  intro lexeme final ⟨holds, passes⟩
  apply Achieves.get
  apply Achieves.iteFalse
  · simp only [beq_iff_eq]
    exact Nat.ne_of_gt passes.cursor.offset_lt
  · exact .pure ⟨holds, passes, rfl, rfl, rfl⟩

theorem Scans.next {text : List Char} {lexeme : Lexeme} {after : List Brace}
    (scans : Scans braces text lexeme after rest) {scanner : Scanner} (placed : scanner.Placed)
    (unread : scanner.cursor.rest = text) (opened : scanner.braces = braces) :
    Achieves next scanner fun token final => Shows token lexeme ∧
      token.span.start = scanner.cursor.position ∧ final.cursor.rest = rest ∧
      final.braces = after ∧ final.Placed := by
  cases text with
  | nil => exact absurd scans.shorter (Nat.not_lt_zero _)
  | cons c others =>
      have head : scanner.cursor.peek? = some c := by rw [Cursor.peek?, unread]; rfl
      have run := scans.scans scanner.cursor.position c scanner rfl unread opened
      apply (next_achieves (unread ▸ scans.noTrivia) head run).mono
      rintro token final ⟨⟨shown, remains, closed⟩, passes, sameLine, span, raw⟩
      refine ⟨⟨shown, sameLine, ?_⟩, by rw [span], remains, closed, placed.of_leads passes.leads⟩
      intro value isNumber
      have text := scans.spelled value (by rw [← shown, ← isNumber])
      rw [raw, passes.leads.cursor.textUntil (unread.trans (text.trans (congrArg _ remains.symm))),
        String.ofList_toList]

/-- The tokens ahead: the next one is read already, and the scanner will read the
others. A regular expression is not known as such, but the scanner reads it from
its slash on. -/
inductive Ahead : List Lexeme → Token → Scanner → Prop
  | none {token : Token} {scanner : Scanner} (isEnd : token.kind = .endOfInput) :
      Ahead [] token scanner
  | token {lexeme : Lexeme} {lexemes : List Lexeme} {token following : Token}
      {scanner later : Scanner} (shows' : Shows token lexeme)
      (known : lexeme.1 ≠ .regExpLiteral)
      (room : lexemes.length ≤ scanner.cursor.rest.length)
      (run : next scanner = .ok following later) (ahead : Ahead lexemes following later) :
      Ahead (lexeme :: lexemes) token scanner
  | regExp {pattern flags : String} {lexemes : List Lexeme} {token found following : Token}
      {scanner final later : Scanner}
      (slash : token.kind = .punctuator .slash ∨ token.kind = .punctuator .slashEqual)
      (rescan : rescanRegExp token scanner = .ok found final)
      (shows' : Shows found (.regExp pattern flags))
      (room : lexemes.length ≤ scanner.cursor.rest.length)
      (run : next final = .ok following later) (ahead : Ahead lexemes following later) :
      Ahead (.regExp pattern flags :: lexemes) token scanner

def Lexes (braces : List Brace) (text : List Char) (lexemes : List Lexeme) : Prop :=
  lexemes.length ≤ text.length ∧ ∀ scanner : Scanner, scanner.Placed →
    scanner.cursor.rest = text → scanner.braces = braces →
      Achieves next scanner (Ahead lexemes)

theorem Lexes.nil : Lexes braces [] [] := by
  refine ⟨Nat.le_refl _, ?_⟩
  intro scanner placed unread opened
  apply Achieves.bind
  refine ⟨_, _, read_skipTrivia (unread ▸ nofun), ?_⟩
  apply Achieves.get
  dsimp only
  rw [Cursor.peek?, unread]
  exact .pure (.none rfl)

variable {lexemes : List Lexeme}

theorem Lexes.cons {text : List Char} {lexeme : Lexeme} {after : List Brace}
    (scans : Scans braces text lexeme after rest) (known : lexeme.1 ≠ .regExpLiteral)
    (lexes : Lexes after rest lexemes) : Lexes braces text (lexeme :: lexemes) := by
  have shorter := scans.shorter
  have room := lexes.1
  refine ⟨by simp only [List.length_cons]; omega, ?_⟩
  intro scanner placed unread opened
  apply (scans.next placed unread opened).mono
  rintro token final ⟨shows', -, remains, closed, placed⟩
  rcases lexes.2 final placed remains closed with ⟨following, later, run, ahead⟩
  exact .token shows' known (remains ▸ room) run ahead

theorem Lexes.space (lexes : Lexes braces rest lexemes) : Lexes braces (' ' :: rest) lexemes := by
  refine ⟨Nat.le_succ_of_le lexes.1, ?_⟩
  intro scanner placed unread opened
  let moved := { scanner with cursor := scanner.cursor.advance }
  have same : next scanner = next moved := by
    have skipped : read skipTrivia scanner = read skipTrivia moved := by
      simp only [read, EStateM.run, skipTrivia_space unread, moved]
    simp only [next, bind, EStateM.bind, skipped]
  have leads : scanner.Leads moved := ⟨rfl, Cursor.leads_advance scanner.cursor⟩
  rw [Achieves, same]
  apply lexes.2 moved (placed.of_leads leads) _ opened
  exact Takes.advance (by decide) scanner.cursor unread

theorem scans_slash {pattern flags : List Char} (text : RegExpText pattern flags) :
    ∃ mark unread, (mark = .slash ∨ mark = .slashEqual) ∧
      Scans braces ('/' :: (pattern ++ '/' :: (flags ++ rest))) (.mark mark) braces unread ∧
        rest.length < unread.length := by
  cases pattern with
  | nil => exact absurd rfl text.notEmpty
  | cons c pattern =>
      by_cases isEqual : c = '='
      · subst isEqual
        refine ⟨.slashEqual, pattern ++ '/' :: (flags ++ rest), .inr rfl, ?_, by simp; omega⟩
        have alone : extensions .slashEqual = [] := by decide
        exact scans_mark .slashEqual (by simp [alone]) (by simp) nofun nofun
      · refine ⟨.slash, c :: pattern ++ '/' :: (flags ++ rest), .inl rfl, ?_, by simp; omega⟩
        have noSlash : c ≠ '/' := by
          rintro rfl
          cases text.body with
          | plain _ _ inClass => cases inClass rfl
        have noStar : c ≠ '*' := fun isStar => text.noComment (by rw [isStar]; rfl)
        have alone : c ∉ extensions .slash := by
          rw [show extensions .slash = ['='] by decide]
          simpa using isEqual
        refine scans_mark .slash ?_ (by simp) (fun _ => by simp [noSlash, noStar]) nofun
        rintro d head
        cases head
        exact alone

theorem rescanRegExp_achieves {pattern flags : String}
    (text : RegExpText pattern.toList flags.toList) (stops : Stops Text.isNamePart rest)
    {slash : Token} {scanner : Scanner} (sameLine : slash.newlineBefore = false)
    (unread : (scanner.cursorAt slash.span.start slash.lineStart).rest =
      '/' :: (pattern.toList ++ '/' :: (flags.toList ++ rest)))
    (placed : Placed { scanner with
      cursor := scanner.cursorAt slash.span.start slash.lineStart }) :
    Achieves (rescanRegExp slash) scanner fun found final =>
      Shows found (.regExp pattern flags) ∧ final.cursor.rest = rest ∧
        final.braces = scanner.braces ∧ final.Placed := by
  have takes := readRegExp_takes text stops slash.span.start
  rw [String.ofList_toList, String.ofList_toList] at takes
  apply Achieves.get
  apply Achieves.modify
  apply Achieves.bind
  apply ((read_achieves takes unread).ensured (Forward.read (readRegExp_forward _) _).ensures).mono
  rintro found final ⟨⟨rfl, remains, same⟩, leads⟩
  apply Achieves.get
  exact .pure ⟨⟨rfl, sameLine, nofun⟩, remains, by rw [same], placed.of_leads leads⟩

theorem Lexes.regExp {pattern flags : String} (text : RegExpText pattern.toList flags.toList)
    (stops : Stops Text.isNamePart rest) (lexes : Lexes braces rest lexemes) :
    Lexes braces ('/' :: (pattern.toList ++ '/' :: (flags.toList ++ rest)))
      (.regExp pattern flags :: lexemes) := by
  have room := lexes.1
  refine ⟨by simp; omega, ?_⟩
  intro scanner placed unread opened
  rcases @scans_slash braces rest _ _ text with ⟨mark, left, isSlash, scans, longer⟩
  rcases scans.next placed unread opened with
    ⟨token, after, run, ⟨shown, sameLine, -⟩, start, remains, closed, -⟩
  refine ⟨token, after, run, ?_⟩
  have kind : token.kind = .punctuator mark := congrArg Prod.fst shown
  have back := (rest_cursorAt placed run (.refl _) start).trans unread
  have placed' := placed_cursorAt placed run (by rw [kind]; nofun)
  rcases rescanRegExp_achieves text stops sameLine back placed' with
    ⟨found, final, rescan, shows', remains', closed', placed''⟩
  rcases lexes.2 final placed'' remains' (closed'.trans closed) with
    ⟨following, later, run', ahead⟩
  have isSlash : token.kind = .punctuator .slash ∨ token.kind = .punctuator .slashEqual := by
    rw [kind]
    simpa using isSlash
  exact .regExp isSlash rescan shows' (by rw [remains]; omega) run' ahead

end Scanner

end ExprScript
