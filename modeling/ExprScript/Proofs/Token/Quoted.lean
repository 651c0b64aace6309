import ExprScript.Proofs.Token.Rereading
import ExprScript.Text.Quote

/-! # Strings and templates are read again

A string literal reads as the text that it was written for. The text of a
template, as it is kept, reads as the same piece again: line ends are the only
characters that change when it is read.
-/

namespace ExprScript.Reader

variable {rest tail : List Char}

/-! ## Escapes -/

def hexValue (digits : List Char) (value : Nat) : Nat :=
  digits.foldl (fun value c => value * 16 + (Number.digitValue? 16 c).getD 0) value

def IsHex (digits : List Char) : Prop := ∀ c ∈ digits, (Number.digitValue? 16 c).isSome = true

inductive CodeText : List Char → Nat → Prop
  | four {digits : List Char} (length : digits.length = 4) (hex : IsHex digits) :
      CodeText digits (hexValue digits 0)
  | braced {digits : List Char} (some : digits ≠ []) (hex : IsHex digits)
      (bound : hexValue digits 0 ≤ 0x10ffff) :
      CodeText ('\x7b' :: (digits ++ ['\x7d'])) (hexValue digits 0)

theorem peekDigit?_bind {α : Type} {radix : Nat} {next : Option Nat → Reader α} {before : Cursor}
    {post : α → Cursor → Prop}
    (ensures : Ensures (next (before.rest.head?.bind (Number.digitValue? radix))) before post) :
    Ensures (peekDigit? radix >>= next) before post :=
  .bind (peek?_bind (.pure ensures))

theorem peekDigit?_takes (radix : Nat) :
    Takes (peekDigit? radix) rest (rest.head?.bind (Number.digitValue? radix)) rest :=
  Takes.peek?.bind (.pure _)

theorem ne_of_digit {c other : Char} {digit : Nat} (found : Number.digitValue? 16 c = some digit)
    (noDigit : Number.digitValue? 16 other = none) : c ≠ other := by
  rintro rfl
  rw [noDigit] at found
  cases found

theorem IsHex.cons {c : Char} {digits : List Char} {digit : Nat}
    (found : Number.digitValue? 16 c = some digit) (hex : IsHex digits) : IsHex (c :: digits) := by
  simpa [IsHex, found] using hex

theorem hexValue_cons {c : Char} {digits : List Char} {digit value : Nat}
    (found : Number.digitValue? 16 c = some digit) :
    hexValue (c :: digits) value = hexValue digits (value * 16 + digit) := by
  simp [hexValue, found]

theorem readHexDigits_ensures (start : Position) (count value : Nat) (before : Cursor) :
    Ensures (readHexDigits start count value) before fun code after => ∃ digits : List Char,
      before.rest = digits ++ after.rest ∧ digits.length = count ∧ IsHex digits ∧
        code = hexValue digits value := by
  induction count generalizing value before with
  | zero => exact .pure ⟨[], rfl, rfl, by simp [IsHex], rfl⟩
  | succ count induction =>
      apply peekDigit?_bind
      cases unread : before.rest with
      | nil => exact .throw _
      | cons c tail =>
          dsimp only [List.head?_cons, Option.bind_some]
          cases found : Number.digitValue? 16 c with
          | none => exact .throw _
          | some digit =>
              refine skip_bind unread (ne_of_digit found (by decide)) ?_
              intro between remains
              refine (induction _ between).mono ?_
              rintro code after ⟨digits, text, length, hex, equal⟩
              refine ⟨c :: digits, ?_, by simp [length], hex.cons found, ?_⟩
              · rw [← remains, text]
                rfl
              · rw [equal, hexValue_cons found]

theorem readHexDigits_takes (start : Position) {count value : Nat} {digits : List Char}
    (length : digits.length = count) (hex : IsHex digits) :
    Takes (readHexDigits start count value) (digits ++ tail) (hexValue digits value) tail := by
  induction digits generalizing count value with
  | nil =>
      cases length
      exact .pure _
  | cons c digits induction =>
      cases length
      rcases Option.isSome_iff_exists.mp (hex c (List.mem_cons_self ..)) with ⟨digit, found⟩
      apply (peekDigit?_takes 16).bind
      simp only [List.cons_append, List.head?_cons, Option.bind_some, found]
      apply (Takes.skip (ne_of_digit found (by decide))).bind
      have later := @induction digits.length (value * 16 + digit) rfl
        fun c member => hex c (List.mem_cons_of_mem _ member)
      rwa [hexValue_cons found]

theorem readBracedCode_ensures (start : Position) (before : Cursor) {tail : List Char}
    (text : before.rest = '\x7b' :: tail) :
    Ensures (readBracedCode start) before fun code after => ∃ chars,
      before.rest = chars ++ after.rest ∧ CodeText chars code := by
  refine skip_bind text (by decide) fun opened remains => ?_
  let reads := fun (state : Nat × Nat) (cursor : Cursor) => ∃ digits,
    tail = digits ++ cursor.rest ∧ digits.length = state.1 ∧ IsHex digits ∧
      state.2 = hexValue digits 0
  apply Ensures.bind
  apply Ensures.get
  refine .repeatWithin reads ?_ (fun _ => .bindAny fun _ _ => .throw _) _
    ⟨[], remains.symm, rfl, by simp [IsHex], rfl⟩
  rintro ⟨count, code⟩ cursor ⟨digits, text', length, hex, value⟩
  change code = _ at value
  apply peekDigit?_bind
  have finish : Ensures (do
      if count == 0 || (← peek?) != some '\x7d' || code > 0x10ffff then
        fail .invalidUnicodeEscape start
      skip
      return code) cursor fun code after => ∃ chars,
        before.rest = chars ++ after.rest ∧ CodeText chars code := by
    apply peek?_bind
    refine .ite (fun _ => .bind (.throw _)) fun valid => ?_
    simp only [Bool.or_eq_true, not_or, beq_iff_eq, bne_iff_ne, ne_eq, Decidable.not_not,
      decide_eq_true_eq, Nat.not_lt] at valid
    rcases valid with ⟨⟨some, closed⟩, bound⟩
    rcases List.head?_eq_some_iff.mp closed with ⟨final, unread⟩
    refine skip_bind unread (by decide) fun after remains' => .pure ?_
    refine ⟨'\x7b' :: (digits ++ ['\x7d']), ?_, ?_⟩
    · rw [text, text', unread, remains']
      simp
    · rw [value] at bound ⊢
      refine .braced ?_ hex bound
      rintro rfl
      exact some length.symm
  cases unread : cursor.rest with
  | nil => exact .pure finish
  | cons c tail' =>
      dsimp only [List.head?_cons, Option.bind_some]
      cases found : Number.digitValue? 16 c with
      | none => exact .pure finish
      | some digit =>
          refine skip_bind unread (ne_of_digit found (by decide)) fun after remains => .pure ?_
          refine ⟨digits ++ [c], ?_, by simp [length], ?_, ?_⟩
          · rw [text', unread, remains]
            simp
          · intro d member
            rcases List.mem_append.mp member with member | member
            · exact hex d member
            · cases List.mem_singleton.mp member
              simp [found]
          · simp [value, hexValue, found]

theorem readBracedCode_takes (start : Position) {digits : List Char} (some : digits ≠ [])
    (hex : IsHex digits) (bound : hexValue digits 0 ≤ 0x10ffff) :
    Takes (readBracedCode start) ('\x7b' :: (digits ++ '\x7d' :: tail)) (hexValue digits 0)
      tail := by
  apply (Takes.skip (by decide)).bind
  refine Takes.bind (?_ : Takes _ _ (digits.length, hexValue digits 0) ('\x7d' :: tail)) ?_
  · apply Takes.loopWith fun state text => ∃ front back, digits = front ++ back ∧
      text = back ++ '\x7d' :: tail ∧ state.1 = front.length ∧ state.2 = hexValue front 0
    · rintro ⟨count, code⟩ text ⟨front, back, rfl, rfl, rfl, rfl⟩
      cases back with
      | nil =>
          left
          apply (peekDigit?_takes 16).bind
          rw [List.append_nil]
          exact .pure _
      | cons c back =>
          right
          rcases Option.isSome_iff_exists.mp (hex c (by simp)) with ⟨digit, found⟩
          refine ⟨(front.length + 1, hexValue front 0 * 16 + digit), back ++ '\x7d' :: tail, ?_,
            by simp, front ++ [c], back, by simp, rfl, by simp, by simp [hexValue, found]⟩
          apply (peekDigit?_takes 16).bind
          simp only [List.cons_append, List.head?_cons, Option.bind_some, found]
          exact (Takes.skip (ne_of_digit found (by decide))).bind (.pure _)
    · exact ⟨[], digits, rfl, rfl, rfl, rfl⟩
  · dsimp only
    apply Takes.bind Takes.peek?
    apply Takes.iteFalse
    · simp [some, bound]
    · exact (Takes.skip (by decide)).bind (.pure _)

theorem readUnicodeCode_ensures (start : Position) (before : Cursor) :
    Ensures (readUnicodeCode start) before fun code after => ∃ chars,
      before.rest = chars ++ after.rest ∧ CodeText chars code := by
  apply peek?_bind
  refine .ite (fun isBrace => ?_) fun _ => ?_
  · rcases List.head?_eq_some_iff.mp (eq_of_beq isBrace) with ⟨tail, text⟩
    exact readBracedCode_ensures start before text
  · refine (readHexDigits_ensures start 4 0 before).mono ?_
    rintro code after ⟨digits, text, length, hex, rfl⟩
    exact ⟨digits, text, .four length hex⟩

theorem readUnicodeCode_takes (start : Position) {chars : List Char} {code : Nat}
    (text : CodeText chars code) : Takes (readUnicodeCode start) (chars ++ tail) code tail := by
  apply Takes.bind Takes.peek?
  cases text with
  | four length hex =>
      apply Takes.iteFalse _ (readHexDigits_takes start length hex)
      intro isBrace
      rcases List.head?_eq_some_iff.mp (eq_of_beq isBrace) with ⟨others, equal⟩
      cases chars with
      | nil => cases length
      | cons c digits =>
          cases equal
          exact absurd (hex _ (List.mem_cons_self ..)) (by decide)
  | @braced digits some hex bound =>
      apply Takes.iteTrue rfl
      rw [List.cons_append, List.append_assoc]
      exact readBracedCode_takes start some hex bound

/-- What follows the backslash of an escape, what it means, and what has to
follow it so that it is not read as a part of something longer. -/
inductive Escapes (tail : List Char) : List Char → Option Char → Prop
  | letter {c meaning : Char} (found : escapeLetter? c = some meaning) :
      Escapes tail [c] (some meaning)
  | lineEnd {c : Char} (ends : Text.isLineTerminator c = true) (single : c ≠ '\r') :
      Escapes tail [c] none
  | hex {high low : Char} {high' low' : Nat} (first : Number.digitValue? 16 high = some high')
      (second : Number.digitValue? 16 low = some low') :
      Escapes tail ['x', high, low] (some (Char.ofNat (high' * 16 + low')))
  | unicode {chars : List Char} {code : Nat} (text : CodeText chars code)
      (alone : isHighSurrogate code = true → ∀ chars' code' tail',
        tail = '\\' :: 'u' :: (chars' ++ tail') → CodeText chars' code' →
          isLowSurrogate code' = false) :
      Escapes tail ('u' :: chars) (some (charOfCode code))
  | pair {chars chars' : List Char} {high low : Nat} (first : CodeText chars high)
      (second : CodeText chars' low) (isHigh : isHighSurrogate high = true)
      (isLow : isLowSurrogate low = true) :
      Escapes tail ('u' :: (chars ++ '\\' :: 'u' :: chars'))
        (some (charOfCode (joinSurrogates high low)))
  | zero (stops : Stops Char.isDigit tail) : Escapes tail ['0'] (some '\x00')
  | self {c : Char} (noLetter : escapeLetter? c = none) (inLine : Text.isLineTerminator c = false)
      (noCode : c ≠ 'x' ∧ c ≠ 'u') (noDigit : c.isDigit = false) : Escapes tail [c] (some c)

theorem readUnicodeEscape_takes (start : Position) {chars : List Char} {code : Nat}
    (text : CodeText chars code)
    (alone : isHighSurrogate code = true → ∀ chars' code' tail',
      tail = '\\' :: 'u' :: (chars' ++ tail') → CodeText chars' code' →
        isLowSurrogate code' = false) :
    Takes (readUnicodeEscape start) (chars ++ tail) (charOfCode code) tail := by
  apply (readUnicodeCode_takes start text).bind
  intro cursor equal
  apply Achieves.get
  have finish : Achieves (pure (charOfCode code) : Reader Char) cursor fun found after =>
      found = charOfCode code ∧ after.rest = tail ∧ cursor.Leads after :=
    .pure ⟨rfl, equal, .refl cursor⟩
  dsimp only
  split
  · next isPair =>
      simp only [Bool.and_eq_true, beq_iff_eq] at isPair
      rcases isPair with ⟨⟨isHigh, first⟩, second⟩
      rw [Cursor.peek?, equal] at first
      rw [Cursor.peekSecond?, equal] at second
      rcases List.head?_eq_some_iff.mp first with ⟨others, rfl⟩
      rw [List.getElem?_cons_succ, ← List.head?_eq_getElem?] at second
      rcases List.head?_eq_some_iff.mp second with ⟨tail', rfl⟩
      have remains : cursor.advance.advance.rest = tail' :=
        Takes.advance (by decide) _ (Takes.advance (by decide) _ equal)
      split
      · next low after run =>
          rcases readUnicodeCode_ensures start _ low after run with ⟨chars', text', isCode⟩
          rw [remains] at text'
          have notLow := alone isHigh chars' low after.rest (by rw [text']) isCode
          rw [if_neg (by simp [notLow])]
          exact finish
      · exact finish
  · exact finish

/-- Two escapes that form a pair of surrogates denote one character. -/
theorem readUnicodeEscape_takes_pair (start : Position) {chars chars' : List Char}
    {high low : Nat} (first : CodeText chars high) (second : CodeText chars' low)
    (isHigh : isHighSurrogate high = true) (isLow : isLowSurrogate low = true) :
    Takes (readUnicodeEscape start) (chars ++ ('\\' :: 'u' :: (chars' ++ tail)))
      (charOfCode (joinSurrogates high low)) tail := by
  apply (readUnicodeCode_takes start first).bind
  intro cursor equal
  apply Achieves.get
  have remains : cursor.advance.advance.rest = chars' ++ tail :=
    Takes.advance (by decide) _ (Takes.advance (by decide) _ equal)
  rcases readUnicodeCode_takes start second cursor.advance.advance remains
    with ⟨_, after, run, rfl, remains', leads⟩
  have isPair : (isHighSurrogate high && cursor.peek? == some '\\' &&
      cursor.peekSecond? == some 'u') = true := by
    simp [isHigh, Cursor.peek?, Cursor.peekSecond?, equal]
  dsimp only [EStateM.run]
  rw [if_pos isPair, run]
  dsimp only
  rw [if_pos isLow]
  apply Achieves.set
  refine .pure ⟨rfl, remains', ?_⟩
  exact (cursor.leads_advance.trans cursor.advance.leads_advance).trans leads

theorem readHexEscape_takes (start : Position) {high low : Char} {high' low' : Nat}
    (first : Number.digitValue? 16 high = some high')
    (second : Number.digitValue? 16 low = some low') :
    Takes (readHexEscape start) (high :: low :: tail) (Char.ofNat (high' * 16 + low')) tail := by
  apply (Takes.advance? (ne_of_digit first (by decide))).bind
  apply (Takes.advance? (ne_of_digit second (by decide))).bind
  simp only [Option.bind_some, first, second]
  exact .pure _

theorem escapeLetter?_single {c meaning : Char} (found : escapeLetter? c = some meaning) :
    c ≠ '\r' := by
  rintro rfl
  cases found

theorem readEscape_takes (start : Position) (inTemplate : Bool) {chunk : List Char}
    {meaning : Option Char} (escapes : Escapes tail chunk meaning) :
    Takes (readEscape start inTemplate) (chunk ++ tail) { character? := meaning } tail := by
  cases escapes with
  | letter found =>
      apply (Takes.advance? (escapeLetter?_single found)).bind
      dsimp only
      rw [found]
      exact .pure _
  | @lineEnd c ends single =>
      apply (Takes.advance? single).bind
      have noLetter : escapeLetter? c = none := by
        unfold escapeLetter?
        split <;> first | rfl | cases ends
      dsimp only
      rw [noLetter]
      exact Takes.iteTrue ends (.pure _)
  | hex first second =>
      apply (Takes.advance? (by decide)).bind
      exact (readHexEscape_takes start first second).bind (.pure _)
  | unicode text alone =>
      apply (Takes.advance? (by decide)).bind
      exact (readUnicodeEscape_takes start text alone).bind (.pure _)
  | pair first second isHigh isLow =>
      simp only [List.cons_append, List.append_assoc]
      apply (Takes.advance? (by decide)).bind
      exact (readUnicodeEscape_takes_pair start first second isHigh isLow).bind (.pure _)
  | zero stops =>
      apply (Takes.advance? (by decide)).bind
      apply Takes.bind Takes.peek?
      apply Takes.iteTrue _ (.pure _)
      cases tail with
      | nil => rfl
      | cons c tail => simp [stops c rfl]
  | @self c noLetter inLine noCode noDigit =>
      apply (Takes.advance? (Scanner.ne_return_of_inLine inLine)).bind
      dsimp only
      rw [noLetter]
      apply Takes.iteFalse (by simp [inLine])
      apply Takes.iteFalse (by simpa using noCode.1)
      apply Takes.iteFalse (by simpa using noCode.2)
      exact Takes.iteFalse (by simp [noDigit]) (.pure _)

/-! ## Strings -/

def ReadsEscaped (escaping : Text.Escaping) : Prop :=
  ∀ (c : Char) (others tail : List Char),
    tail.head? = some '\x22' ∨ tail.head? = others.head? ∨ tail.head? = some '\\' →
    (escaping c others.head? = [c] ∧ c ≠ '\x22' ∧ c ≠ '\\' ∧ c ≠ '\n' ∧ c ≠ '\r') ∨
      ∃ chunk, escaping c others.head? = '\\' :: chunk ∧ Escapes tail chunk (some c)

theorem readsEscaped_literal : ReadsEscaped Text.literalEscaping := by
  intro c others tail follows
  unfold Text.literalEscaping
  split
  · exact .inr ⟨_, rfl, .self (by decide) (by decide) (by decide) (by decide)⟩
  · exact .inr ⟨_, rfl, .self (by decide) (by decide) (by decide) (by decide)⟩
  · exact .inr ⟨_, rfl, .letter rfl⟩
  · exact .inr ⟨_, rfl, .letter rfl⟩
  · exact .inr ⟨_, rfl, .letter rfl⟩
  · exact .inr ⟨_, rfl, .letter rfl⟩
  · exact .inr ⟨_, rfl, .letter rfl⟩
  · exact .inr ⟨_, rfl, .letter rfl⟩
  · next notQuote notEscape notFeed notReturn _ _ _ _ =>
      split
      · next isZero =>
          simp only [Bool.and_eq_true, beq_iff_eq, Bool.not_eq_true'] at isZero
          rcases isZero with ⟨rfl, noDigit⟩
          refine .inr ⟨_, rfl, .zero fun d head => ?_⟩
          rcases follows with quote | same | escape
          · rw [quote] at head
            cases head
            decide
          · rw [same] at head
            simpa [head] using noDigit
          · rw [escape] at head
            cases head
            decide
      · split
        · next isControl =>
            refine .inr ⟨_, rfl, ?_⟩
            have digit : ∀ value < 16, Number.digitValue? 16 (Text.upperHexDigit value) =
                some value := by decide
            have value : c.toNat / 16 % 16 * 16 + c.toNat % 16 = c.toNat := by omega
            have form := @Escapes.hex tail _ _ _ _ (digit (c.toNat / 16 % 16) (by omega))
              (digit (c.toNat % 16) (by omega))
            rw [value, Char.ofNat_toNat] at form
            simpa [Text.hexDigits, List.range, List.range.loop, Nat.shiftRight_eq_div_pow] using form
        · exact .inl ⟨rfl, notQuote, notEscape, notFeed, notReturn⟩

theorem escapes_control {c : Char} (isControl : c.toNat < 0x20) :
    Escapes tail ('u' :: Text.hexDigits Text.lowerHexDigit 4 c.toNat) (some c) := by
  have digit : ∀ value < 16, Number.digitValue? 16 (Text.lowerHexDigit value) = some value := by
    decide
  have high : c.toNat / 4096 % 16 = 0 ∧ c.toNat / 256 % 16 = 0 := by omega
  have digits : Text.hexDigits Text.lowerHexDigit 4 c.toNat =
      [Text.lowerHexDigit 0, Text.lowerHexDigit 0, Text.lowerHexDigit (c.toNat / 16 % 16),
        Text.lowerHexDigit (c.toNat % 16)] := by
    simp [Text.hexDigits, List.range, List.range.loop, Nat.shiftRight_eq_div_pow, high]
  have second := digit (c.toNat / 16 % 16) (by omega)
  have first := digit (c.toNat % 16) (by omega)
  have hex : IsHex (Text.hexDigits Text.lowerHexDigit 4 c.toNat) := by
    simp [digits, IsHex, digit, first, second]
  have value : hexValue (Text.hexDigits Text.lowerHexDigit 4 c.toNat) 0 = c.toNat := by
    simp only [digits, hexValue, List.foldl_cons, List.foldl_nil, digit 0 (by decide), first, second,
      Option.getD_some]
    omega
  have text : CodeText (Text.hexDigits Text.lowerHexDigit 4 c.toNat) c.toNat := by
    have four := CodeText.four (by rw [digits]; rfl) hex
    rwa [value] at four
  have meaning : charOfCode c.toNat = c := by
    rw [charOfCode, if_pos (.inl (by omega)), Char.ofNat_toNat]
  have escapes : Escapes tail _ _ := .unicode text fun isHigh => by
    simp only [isHighSurrogate, Bool.and_eq_true, decide_eq_true_eq] at isHigh
    omega
  rwa [meaning] at escapes

theorem readsEscaped_json : ReadsEscaped Text.jsonEscaping := by
  intro c others tail follows
  unfold Text.jsonEscaping
  split
  · exact .inr ⟨_, rfl, .self (by decide) (by decide) (by decide) (by decide)⟩
  · exact .inr ⟨_, rfl, .self (by decide) (by decide) (by decide) (by decide)⟩
  · exact .inr ⟨_, rfl, .letter rfl⟩
  · exact .inr ⟨_, rfl, .letter rfl⟩
  · exact .inr ⟨_, rfl, .letter rfl⟩
  · exact .inr ⟨_, rfl, .letter rfl⟩
  · exact .inr ⟨_, rfl, .letter rfl⟩
  · next notQuote notEscape notFeed notReturn _ _ _ =>
      split
      · next isControl => exact .inr ⟨_, rfl, escapes_control isControl⟩
      · exact .inl ⟨rfl, notQuote, notEscape, notFeed, notReturn⟩

section Escaped

variable {escaping : Text.Escaping} (reads : ReadsEscaped escaping)

include reads

theorem head_escapeAll (others rest : List Char) :
    (Text.escapeAll escaping others ++ '\x22' :: rest).head? = some '\x22' ∨
      (Text.escapeAll escaping others ++ '\x22' :: rest).head? = others.head? ∨
      (Text.escapeAll escaping others ++ '\x22' :: rest).head? = some '\\' := by
  cases others with
  | nil => exact .inl rfl
  | cons c others =>
      right
      rw [Text.escapeAll]
      rcases reads c others ['\x22'] (.inl rfl) with ⟨equal, -⟩ | ⟨chunk, equal, -⟩
      · rw [equal]
        exact .inl rfl
      · rw [equal]
        exact .inr rfl

theorem length_escapeAll (c : Char) (others : List Char) :
    (Text.escapeAll escaping others).length < (Text.escapeAll escaping (c :: others)).length := by
  rw [Text.escapeAll]
  rcases reads c others ['\x22'] (.inl rfl) with ⟨equal, -⟩ | ⟨chunk, equal, -⟩
  · simp [equal]
  · simp only [equal, List.length_append, List.length_cons]
    omega

theorem readString_takes (value : String) (start : Position) :
    Takes (readString start) ((Text.quoteWith escaping value).toList ++ rest) (value, false) rest := by
  have text : (Text.quoteWith escaping value).toList ++ rest =
      '\x22' :: (Text.escapeAll escaping value.toList ++ '\x22' :: rest) := by
    simp [Text.quoteWith]
  rw [text]
  apply (Takes.advance? (by decide)).bind
  refine Takes.bind (?_ : Takes _ _ (value.toList.reverse, false) rest) ?_
  · apply Takes.loopWith fun state text => state.2 = false ∧ ∃ others,
      text = Text.escapeAll escaping others ++ '\x22' :: rest ∧
        state.1.reverse ++ others = value.toList
    · rintro ⟨reversed, octal⟩ text' ⟨rfl, others, rfl, whole⟩
      cases others with
      | nil =>
          left
          rw [← whole, List.append_nil, List.reverse_reverse]
          apply Takes.bind Takes.peek?
          exact (Takes.skip (by decide)).bind (.pure _)
      | cons c others =>
          right
          refine ⟨(c :: reversed, false), _, ?_, ?_, rfl, others, rfl, by simpa using whole⟩
          · rw [Text.escapeAll, List.append_assoc]
            rcases reads c others _ (head_escapeAll reads others rest)
              with ⟨equal, notQuote, notEscape, notFeed, notReturn⟩ | ⟨chunk, equal, escapes⟩
            · rw [equal]
              apply Takes.bind Takes.peek?
              dsimp only [List.cons_append, List.head?_cons]
              split
              · next wrong => cases wrong
              · next wrong => cases wrong; exact absurd rfl notFeed
              · next wrong => cases wrong; exact absurd rfl notReturn
              · next same =>
                  cases same
                  apply Takes.iteFalse (by simpa using notQuote)
                  apply Takes.iteFalse (by simpa using notEscape)
                  exact (Takes.skip notReturn).bind (.pure _)
            · rw [equal]
              apply Takes.bind Takes.peek?
              apply Takes.position
              intro place
              apply (Takes.skip (by decide)).bind
              exact (readEscape_takes place false escapes).bind (.pure _)
          · have longer := length_escapeAll reads c others
            simp only [List.length_append]
            omega
    · exact ⟨rfl, value.toList, rfl, rfl⟩
  · dsimp only
    rw [List.reverse_reverse, String.ofList_toList]
    exact .pure _

end Escaped

end ExprScript.Reader
