import ExprScript.Proofs.Token.Quoted

/-! # Template text is read again

The text of a template is kept as it was written, up to line ends. From the text
that is kept, the same piece is read again, whatever delimiter follows it.
-/

namespace ExprScript

def Scanner.pieceEnd (opensHole : Bool) : List Char :=
  if opensHole then ['$', '\x7b'] else ['\x60']

namespace Reader

variable {rest tail : List Char}

/-! ## What an escape was -/

theorem advance?_bind {α : Type} {next : Option Char → Reader α} {before : Cursor}
    {post : α → Cursor → Prop}
    (ensures : Ensures (next before.rest.head?) before.advance post) :
    Ensures (advance? >>= next) before post := by
  intro result after run
  exact ensures result after run

theorem readHexEscape_ensures (start : Position) (before : Cursor) :
    Ensures (readHexEscape start) before fun c after => ∃ high low high' low',
      before.rest = high :: low :: after.rest ∧ Number.digitValue? 16 high = some high' ∧
        Number.digitValue? 16 low = some low' ∧ c = Char.ofNat (high' * 16 + low') := by
  apply advance?_bind
  apply advance?_bind
  dsimp only
  split
  · next high' low' first second =>
      rcases Option.bind_eq_some_iff.mp first with ⟨high, head, isHigh⟩
      rcases List.head?_eq_some_iff.mp head with ⟨others, text⟩
      have remains := Takes.advance (ne_of_digit isHigh (by decide)) before text
      rw [remains] at second
      rcases Option.bind_eq_some_iff.mp second with ⟨low, head', isLow⟩
      rcases List.head?_eq_some_iff.mp head' with ⟨others', rfl⟩
      have remains' := Takes.advance (ne_of_digit isLow (by decide)) before.advance remains
      refine .pure ⟨high, low, high', low', ?_, isHigh, isLow, rfl⟩
      rw [text, remains']
  · exact .throw _

theorem readUnicodeEscape_ensures (start : Position) (before : Cursor) :
    Ensures (readUnicodeEscape start) before fun c after => ∃ chunk,
      before.rest = chunk ++ after.rest ∧ Escapes after.rest ('u' :: chunk) (some c) := by
  refine .bind ((readUnicodeCode_ensures start before).mono ?_)
  rintro code middle ⟨chars, text, isCode⟩
  apply Ensures.get
  -- The code stands alone unless a low surrogate follows it.
  have single : (isHighSurrogate code = true → ∀ chars' code' tail',
      middle.rest = '\\' :: 'u' :: (chars' ++ tail') → CodeText chars' code' →
        isLowSurrogate code' = false) →
      Ensures (pure (charOfCode code) : Reader Char) middle fun c after => ∃ chunk,
        before.rest = chunk ++ after.rest ∧ Escapes after.rest ('u' :: chunk) (some c) :=
    fun alone => .pure ⟨chars, text, .unicode isCode alone⟩
  have remains : ∀ tail', middle.rest = '\\' :: 'u' :: tail' →
      middle.advance.advance.rest = tail' := by
    intro tail' equal
    exact Takes.advance (by decide) _ (Takes.advance (by decide) _ equal)
  refine .ite (fun isPair => ?_) fun notPair => single ?_
  · simp only [Bool.and_eq_true, beq_iff_eq] at isPair
    rcases isPair with ⟨⟨isHigh, first⟩, second⟩
    rcases List.head?_eq_some_iff.mp first with ⟨others, unread⟩
    rw [Cursor.peekSecond?, unread, List.getElem?_cons_succ, ← List.head?_eq_getElem?] at second
    rcases List.head?_eq_some_iff.mp second with ⟨tail', rfl⟩
    have read : ∀ chars' code' tail', middle.rest = '\\' :: 'u' :: (chars' ++ tail') →
        CodeText chars' code' → ∃ after,
          readUnicodeCode start middle.advance.advance = .ok code' after := by
      intro chars' code' tail' equal isCode'
      rcases readUnicodeCode_takes start isCode' _ (remains _ equal) with ⟨_, after, run, rfl, -⟩
      exact ⟨after, run⟩
    split
    · next low after run =>
        rcases readUnicodeCode_ensures start _ low after run with ⟨chars', text', isCode'⟩
        refine .ite (fun isLow => .set (.pure ?_)) fun notLow => single ?_
        · refine ⟨chars ++ '\\' :: 'u' :: chars', ?_, .pair isCode isCode' isHigh isLow⟩
          rw [text, unread, ← remains tail' unread, text']
          simp
        · intro _ chars'' code'' tail'' equal isCode''
          rcases read chars'' code'' tail'' equal isCode'' with ⟨after', run'⟩
          cases run.symm.trans run'
          simpa using notLow
    · next run =>
        refine single fun _ chars'' code'' tail'' equal isCode'' => ?_
        rcases read chars'' code'' tail'' equal isCode'' with ⟨after', run'⟩
        cases run.symm.trans run'
  · intro isHigh chars' code' tail' equal isCode'
    exact absurd (by simp [isHigh, Cursor.peek?, Cursor.peekSecond?, equal]) notPair

def IsReturn (chunk tail : List Char) : Prop :=
  chunk = ['\r', '\n'] ∨ chunk = ['\r'] ∧ tail.head? ≠ some '\n'

theorem advance_return {before : Cursor} {others : List Char} (text : before.rest = '\r' :: others) :
    ∃ chunk, before.rest = chunk ++ before.advance.rest ∧ IsReturn chunk before.advance.rest := by
  unfold Cursor.advance
  rw [text]
  split
  · next wrong => cases wrong
  · next rest same =>
      cases same
      exact ⟨['\r', '\n'], rfl, .inl rfl⟩
  · next c rest notPair same =>
      cases same
      refine ⟨['\r'], rfl, .inr ⟨rfl, ?_⟩⟩
      intro head
      rcases List.head?_eq_some_iff.mp head with ⟨rest, equal⟩
      exact notPair rest rfl equal

/-- What was read as an escape of a template: an escape that means the same with
other text behind it, or a line end. -/
theorem readEscape_ensures (start : Position) (before : Cursor) :
    Ensures (readEscape start true) before fun escape after => ∃ chunk,
      before.rest = chunk ++ after.rest ∧
        (Escapes after.rest chunk escape.character? ∨
          IsReturn chunk after.rest ∧ escape.character? = none) := by
  apply advance?_bind
  cases text : before.rest with
  | nil => exact .throw _
  | cons c others =>
      have advanced := fun single => Takes.advance single before text
      dsimp only [List.head?_cons]
      split
      · next meaning found =>
          refine .pure ⟨[c], ?_, .inl (.letter found)⟩
          rw [advanced (escapeLetter?_single found)]
          rfl
      · next noLetter =>
          refine .ite (fun ends => .pure ?_) fun inLine => ?_
          · by_cases isReturn : c = '\r'
            · cases isReturn
              rcases advance_return text with ⟨chunk, parts, form⟩
              exact ⟨chunk, text ▸ parts, .inr ⟨form, rfl⟩⟩
            · refine ⟨[c], ?_, .inl (.lineEnd ends isReturn)⟩
              rw [advanced isReturn]
              rfl
          simp only [Bool.not_eq_true] at inLine
          have remains := advanced (Scanner.ne_return_of_inLine inLine)
          refine .ite (fun isHex => ?_) fun notHex => .ite (fun isCode => ?_) fun notCode =>
            .ite (fun isDigit => ?_) fun notDigit => .pure ?_
          · cases eq_of_beq isHex
            refine .bind ((readHexEscape_ensures start _).mono ?_)
            rintro _ after ⟨high, low, high', low', parts, first, second, rfl⟩
            refine .pure ⟨['x', high, low], ?_, .inl (.hex first second)⟩
            rw [← remains, parts]
            rfl
          · cases eq_of_beq isCode
            refine .bind ((readUnicodeEscape_ensures start _).mono ?_)
            rintro _ after ⟨chunk, parts, escapes⟩
            refine .pure ⟨'u' :: chunk, ?_, .inl escapes⟩
            rw [← remains, parts]
            rfl
          · apply peek?_bind
            refine .ite (fun isZero => .pure ?_) fun _ => .ite (fun _ => .bind (.throw _)) fun _ =>
              .bind (.throw _)
            simp only [Bool.and_eq_true, beq_iff_eq, Bool.not_eq_true'] at isZero
            rcases isZero with ⟨rfl, noDigit⟩
            refine ⟨['0'], by rw [remains]; rfl, .inl (.zero ?_)⟩
            intro d head
            simpa [head] using noDigit
          · refine ⟨[c], by rw [remains]; rfl, .inl (.self noLetter inLine ?_ ?_)⟩
            · exact ⟨by simpa using notHex, by simpa using notCode⟩
            · simpa using notDigit

/-! ## Pieces of template text -/

def Delimits (tail : List Char) : Prop := tail.head? = some '\x60' ∨ tail.head? = some '$'

/-- Text of a template as it is kept, and what it means. Every escape means the
same whatever follows the text. -/
inductive TemplateText : List Char → List Char → Prop
  | nil : TemplateText [] []
  | plain {c : Char} {raw cooked : List Char} (notQuote : c ≠ '\x60') (notEscape : c ≠ '\\')
      (notReturn : c ≠ '\r') (noHole : c = '$' → raw.head? ≠ some '\x7b')
      (later : TemplateText raw cooked) : TemplateText (c :: raw) (c :: cooked)
  | escape {chunk raw cooked : List Char} {meaning : Option Char}
      (escapes : ∀ tail, Delimits tail → Escapes (raw ++ tail) chunk meaning)
      (later : TemplateText raw cooked) :
      TemplateText ('\\' :: (chunk ++ raw)) (meaning.toList ++ cooked)

theorem normalizeLineEnds_cons {c : Char} (single : c ≠ '\r') (text : List Char) :
    normalizeLineEnds (c :: text) = c :: normalizeLineEnds text := by
  rw [normalizeLineEnds]
  · intro rest wrong
    exact absurd wrong single
  · exact single

theorem normalizeLineEnds_return {chunk text tail : List Char}
    (isReturn : IsReturn chunk (text ++ tail)) :
    normalizeLineEnds (chunk ++ text) = '\n' :: normalizeLineEnds text := by
  rcases isReturn with rfl | ⟨rfl, notFeed⟩
  · rfl
  · rw [List.cons_append, List.nil_append, normalizeLineEnds]
    rintro rest rfl
    exact notFeed rfl

theorem normalizeLineEnds_append {chunk : List Char} (single : '\r' ∉ chunk) (text : List Char) :
    normalizeLineEnds (chunk ++ text) = chunk ++ normalizeLineEnds text := by
  induction chunk with
  | nil => rfl
  | cons c chunk induction =>
      simp only [List.mem_cons, not_or] at single
      rw [List.cons_append, normalizeLineEnds_cons (Ne.symm single.1), induction single.2]
      rfl

theorem normalizeLineEnds_cons_return (text : List Char) :
    ∃ others, normalizeLineEnds ('\r' :: text) = '\n' :: normalizeLineEnds others := by
  by_cases pair : ∃ others, text = '\n' :: others
  · rcases pair with ⟨others, rfl⟩
    exact ⟨others, rfl⟩
  · refine ⟨text, ?_⟩
    rw [normalizeLineEnds]
    rintro others rfl
    exact pair ⟨others, rfl⟩

/-- What the kept text starts with, line ends and delimiters aside, was there
before. -/
theorem isPrefix_of_normalizeLineEnds {front text tail : List Char} (delimits : Delimits tail)
    (inside : '\n' ∉ front ∧ '\x60' ∉ front ∧ '$' ∉ front)
    (starts : front <+: normalizeLineEnds text ++ tail) : front <+: text := by
  induction front generalizing text with
  | nil => exact List.nil_prefix
  | cons c front induction =>
      simp only [List.mem_cons, not_or] at inside
      rcases inside with ⟨⟨notFeed, noFeed⟩, ⟨notQuote, noQuote⟩, notHole, noHole⟩
      cases text with
      | nil =>
          rcases starts with ⟨others, equal⟩
          rw [normalizeLineEnds, List.nil_append] at equal
          rw [Delimits, ← equal] at delimits
          exact absurd delimits (by simp [Ne.symm notQuote, Ne.symm notHole])
      | cons d text =>
          by_cases isReturn : d = '\r'
          · subst isReturn
            rcases normalizeLineEnds_cons_return text with ⟨others, equal⟩
            rw [equal, List.cons_append, List.cons_prefix_cons] at starts
            exact absurd starts.1.symm notFeed
          · rw [normalizeLineEnds_cons isReturn, List.cons_append, List.cons_prefix_cons] at starts
            rw [List.cons_prefix_cons]
            exact ⟨starts.1, induction ⟨noFeed, noQuote, noHole⟩ starts.2⟩

theorem CodeText.outside {chars : List Char} {code : Nat} (text : CodeText chars code) {c : Char}
    (noDigit : Number.digitValue? 16 c = none) (noBrace : c ≠ '\x7b' ∧ c ≠ '\x7d') :
    c ∉ chars := by
  intro member
  cases text with
  | four length hex =>
      have digit := hex c member
      rw [noDigit] at digit
      cases digit
  | braced some hex bound =>
      simp only [List.mem_cons, List.mem_append, List.not_mem_nil, or_false] at member
      rcases member with isOpen | member | isClose
      · exact noBrace.1 isOpen
      · have digit := hex c member
        rw [noDigit] at digit
        cases digit
      · exact noBrace.2 isClose

theorem Escapes.kept {text tail tail' chunk : List Char} {meaning : Option Char}
    (escapes : Escapes (text ++ tail) chunk meaning) (delimits : Delimits tail') :
    Escapes (normalizeLineEnds text ++ tail') chunk meaning := by
  cases escapes with
  | letter found => exact .letter found
  | lineEnd ends single => exact .lineEnd ends single
  | hex first second => exact .hex first second
  | unicode isCode alone =>
      refine .unicode isCode fun isHigh chars' code' others equal isCode' => ?_
      have starts : '\\' :: 'u' :: chars' <+: text := by
        apply isPrefix_of_normalizeLineEnds delimits _ ⟨others, equal.symm⟩
        have outside := fun c => @CodeText.outside chars' code' isCode' c
        simp [outside '\n' (by decide) (by decide), outside '\x60' (by decide) (by decide),
          outside '$' (by decide) (by decide)]
      rcases starts with ⟨others', rfl⟩
      exact alone isHigh chars' code' (others' ++ tail) (by simp) isCode'
  | pair first second isHigh isLow => exact .pair first second isHigh isLow
  | zero stops =>
      refine .zero fun c head => ?_
      cases text with
      | nil =>
          rw [normalizeLineEnds, List.nil_append] at head
          rcases delimits with delimits | delimits <;> rw [delimits] at head <;> cases head <;> decide
      | cons d text =>
          by_cases isReturn : d = '\r'
          · subst isReturn
            rcases normalizeLineEnds_cons_return text with ⟨others, equal⟩
            rw [equal] at head
            cases head
            decide
          · rw [normalizeLineEnds_cons isReturn] at head
            exact stops c head
  | self noLetter inLine noCode noDigit => exact .self noLetter inLine noCode noDigit

theorem Escapes.no_return {tail chunk : List Char} {meaning : Option Char}
    (escapes : Escapes tail chunk meaning) : '\r' ∉ chunk := by
  have code := fun chars code isCode =>
    @CodeText.outside chars code isCode '\r' (by decide) (by decide)
  cases escapes with
  | letter found => simpa using Ne.symm (escapeLetter?_single found)
  | lineEnd ends single => simpa using Ne.symm single
  | hex first second =>
      have high := @ne_of_digit _ '\r' _ first (by decide)
      have low := @ne_of_digit _ '\r' _ second (by decide)
      simp [Ne.symm high, Ne.symm low]
  | unicode isCode => simp [code _ _ isCode]
  | pair first second => simp [code _ _ first, code _ _ second]
  | zero => decide
  | self noLetter inLine => simpa using Ne.symm (Scanner.ne_return_of_inLine inLine)

def Precedes (passed reversed : List Char) (unread : List Char) : Prop :=
  ∀ text tail cooked, unread = text ++ tail → Delimits tail →
    TemplateText (normalizeLineEnds text) cooked →
      TemplateText (normalizeLineEnds (passed ++ text)) (reversed.reverse ++ cooked)

theorem Precedes.step {passed reversed chunk unread meaning : List Char}
    (precedes : Precedes passed reversed (chunk ++ unread))
    (step : Precedes chunk meaning unread) :
    Precedes (passed ++ chunk) (meaning ++ reversed) unread := by
  intro text tail cooked parts delimits later
  rw [List.append_assoc, List.reverse_append, List.append_assoc]
  apply precedes _ tail _ _ delimits (step text tail cooked parts delimits later)
  rw [parts, List.append_assoc]

theorem precedes_plain {c : Char} {unread : List Char} (notQuote : c ≠ '\x60')
    (notEscape : c ≠ '\\') (notReturn : c ≠ '\r') (noHole : c = '$' → unread.head? ≠ some '\x7b') :
    Precedes [c] [c] unread := by
  rintro text tail cooked rfl delimits later
  rw [List.cons_append, List.nil_append, normalizeLineEnds_cons notReturn]
  refine .plain notQuote notEscape notReturn (fun isDollar => ?_) later
  have noHole := noHole isDollar
  cases text with
  | nil => nofun
  | cons d text =>
      by_cases isReturn : d = '\r'
      · subst isReturn
        rcases normalizeLineEnds_cons_return text with ⟨others, equal⟩
        simp [equal]
      · rw [normalizeLineEnds_cons isReturn]
        exact noHole

theorem precedes_return {chunk unread : List Char} (isReturn : IsReturn chunk unread) :
    Precedes chunk ['\n'] unread := by
  rintro text tail cooked rfl delimits later
  rw [normalizeLineEnds_return isReturn]
  exact .plain (by decide) (by decide) (by decide) nofun later

theorem precedes_escape {chunk unread : List Char} {meaning : Option Char}
    (escapes : Escapes unread chunk meaning) :
    Precedes ('\\' :: chunk) meaning.toList unread := by
  rintro text tail cooked rfl delimits later
  rw [List.cons_append, normalizeLineEnds_cons (by decide),
    normalizeLineEnds_append escapes.no_return]
  have reversed : meaning.toList.reverse = meaning.toList := by cases meaning <;> rfl
  rw [reversed]
  exact .escape (fun tail' delimits' => escapes.kept delimits') later

theorem precedes_escape_return {chunk unread : List Char} (isReturn : IsReturn chunk unread) :
    Precedes ('\\' :: chunk) [] unread := by
  rintro text tail cooked rfl delimits later
  rw [List.cons_append, normalizeLineEnds_cons (by decide), normalizeLineEnds_return isReturn]
  exact @TemplateText.escape ['\n'] _ _ none
    (fun tail' delimits' => .lineEnd (by decide) (by decide)) later

theorem readTemplatePiece_ensures (start : Position) (before : Cursor) :
    Ensures (readTemplatePiece start) before fun piece _ =>
      TemplateText piece.raw.toList piece.cooked.toList := by
  apply Ensures.get
  apply Ensures.get
  let reads := fun (reversed : List Char) (cursor : Cursor) => ∃ passed,
    before.rest = passed ++ cursor.rest ∧ before.Leads cursor ∧
      Precedes passed reversed cursor.rest
  refine .repeatWithin reads ?_ (fun _ => .bindAny fun _ _ => .throw _) _
    ⟨[], rfl, .refl before, fun _ _ _ _ _ later => later⟩
  rintro reversed cursor ⟨passed, parts, leads, precedes⟩
  have finish : Delimits cursor.rest →
      TemplateText (normalizeLineEnds (before.textUntil cursor).toList) reversed.reverse := by
    intro delimits
    rw [leads.textUntil parts, String.toList_ofList]
    simpa using precedes [] cursor.rest [] rfl delimits .nil
  have goOn : ∀ chunk meaning after, cursor.rest = chunk ++ after.rest → cursor.Leads after →
      Precedes chunk meaning after.rest → reads (meaning ++ reversed) after := by
    intro chunk meaning after parts' leads' step
    refine ⟨passed ++ chunk, ?_, leads.trans leads', ?_⟩
    · rw [parts, parts', List.append_assoc]
    · rw [parts'] at precedes
      exact precedes.step step
  apply peek?_bind
  cases unread : cursor.rest with
  | nil => exact .throw _
  | cons c others =>
      have head : cursor.rest.head? = some c := by rw [unread]; rfl
      refine .ite (fun isQuote => ?_) fun notQuote => ?_
      · cases eq_of_beq isQuote
        refine .get (.bindAny fun _ _ => .pure ?_)
        simpa [Round.Holds] using finish (.inl head)
      apply Ensures.bind
      apply Ensures.get
      apply Ensures.pure
      refine .ite (fun isHole => ?_) fun notHole => ?_
      · simp only [Bool.and_eq_true, beq_iff_eq] at isHole
        cases isHole.1
        refine .get (.bindAny fun _ _ => .bindAny fun _ _ => .pure ?_)
        simpa [Round.Holds] using finish (.inr head)
      refine .ite (fun isEscape => ?_) fun notEscape => ?_
      · cases eq_of_beq isEscape
        apply Ensures.bind
        apply Ensures.get
        apply Ensures.pure
        apply skip_advance
        have remains := Takes.advance (by decide) cursor unread
        refine .bind (((readEscape_ensures _ _).both ((readEscape_forward _ _).ensures _)).mono ?_)
        rintro escape after ⟨⟨chunk, parts', form⟩, leads'⟩
        rw [remains] at parts'
        have text : cursor.rest = '\\' :: chunk ++ after.rest := by rw [unread, parts']; rfl
        have leads' := cursor.leads_advance.trans leads'
        refine .pure (goOn ('\\' :: chunk) _ after text leads' ?_)
        rcases form with escapes | ⟨isReturn, equal⟩
        · exact precedes_escape escapes
        · rw [equal]
          exact precedes_escape_return isReturn
      · apply skip_advance
        have leads' := cursor.leads_advance
        simp only [beq_iff_eq] at notQuote notEscape
        by_cases isReturn : c = '\r'
        · subst isReturn
          rcases advance_return unread with ⟨chunk, parts', form⟩
          exact .pure (goOn chunk ['\n'] _ parts' leads' (precedes_return form))
        · have remains := Takes.advance isReturn cursor unread
          rw [if_neg (by simpa using isReturn)]
          refine .pure (goOn [c] [c] _ (by rw [unread, remains]; rfl) leads' ?_)
          refine precedes_plain notQuote notEscape isReturn fun isDollar => ?_
          rw [remains]
          simpa [isDollar, Cursor.peekSecond?, unread, ← List.head?_eq_getElem?] using notHole

theorem TemplateText.normalized {raw cooked : List Char} (text : TemplateText raw cooked) :
    normalizeLineEnds raw = raw := by
  induction text with
  | nil => rfl
  | plain notQuote notEscape notReturn noHole later induction =>
      rw [normalizeLineEnds_cons notReturn, induction]
  | escape escapes later induction =>
      have single := (escapes ['\x60'] (.inl rfl)).no_return
      rw [normalizeLineEnds_cons (by decide), normalizeLineEnds_append single, induction]

theorem pieceBetween_eq {body stop : Cursor} (leads : body.Leads stop) {passed : List Char}
    (text : body.rest = passed ++ stop.rest) (reversed : List Char) (opensHole : Bool) :
    pieceBetween body stop reversed opensHole =
      { cooked := String.ofList reversed.reverse
        raw := String.ofList (normalizeLineEnds passed)
        opensHole } := by
  rw [pieceBetween, leads.textUntil text, String.toList_ofList]

theorem templateRound_closes (start : Position) (body : Cursor) (reversed : List Char)
    (opensHole : Bool) {before : Cursor} {rest : List Char}
    (unread : before.rest = Scanner.pieceEnd opensHole ++ rest) :
    Achieves (templateRound start body reversed) before fun outcome after =>
      outcome = .done (pieceBetween body before reversed opensHole) ∧ after.rest = rest ∧
        before.Leads after := by
  have leads := before.leads_advance
  refine .bind (.get (.pure ?_))
  rw [Cursor.peek?, unread]
  cases opensHole with
  | false =>
      have remains : before.advance.rest = rest := Takes.advance (by decide) before unread
      exact .get (.modify (.pure ⟨rfl, remains, leads⟩))
  | true =>
      have remains : before.advance.rest = '\x7b' :: rest :=
        Takes.advance (by decide) before unread
      refine .bind (.get (.pure ?_))
      rw [Cursor.peekSecond?, unread]
      refine .get (.modify (.modify (.pure ⟨rfl, Takes.advance (by decide) _ remains, ?_⟩)))
      exact leads.trans before.advance.leads_advance

/-- From the text that is kept, the same piece is read again. -/
theorem readTemplatePiece_takes (start : Position) {raw cooked : String}
    (text : TemplateText raw.toList cooked.toList) (opensHole : Bool) (rest : List Char) :
    Takes (readTemplatePiece start)
      (raw.toList ++ (Scanner.pieceEnd opensHole ++ rest))
      { cooked, raw, opensHole } rest := by
  intro cursor equal
  apply Achieves.get
  let delimiter := Scanner.pieceEnd opensHole ++ rest
  have delimits : Delimits delimiter := by
    cases opensHole
    · exact .inl rfl
    · exact .inr rfl
  refine loop_achieves (fun reversed unread => ∃ raw' cooked', unread = raw' ++ delimiter ∧
      TemplateText raw' cooked' ∧ reversed.reverse ++ cooked' = cooked.toList)
    (fun reversed unread => unread = delimiter ∧ reversed.reverse = cooked.toList) ?_
    ⟨raw.toList, cooked.toList, equal, text, rfl⟩ ?_
  · rintro reversed unread ⟨raw', cooked', rfl, text, whole⟩
    cases text with
    | nil => exact .inl ⟨rfl, by simpa using whole⟩
    | @plain c raw' cooked' notQuote notEscape notReturn noHole later =>
        right
        refine ⟨c :: reversed, raw' ++ delimiter, ?_, by simp, raw', cooked', rfl, later, ?_⟩
        · apply Takes.bind Takes.peek?
          apply Takes.iteFalse (by simpa using notQuote)
          apply Takes.bind Takes.peekSecond?
          apply Takes.iteFalse
          · rw [List.cons_append, List.getElem?_cons_succ, ← List.head?_eq_getElem?]
            simp only [Bool.and_eq_true, beq_iff_eq, not_and]
            intro isDollar
            cases raw' with
            | nil => rcases delimits with head | head <;> simp [head]
            | cons d raw' => exact noHole isDollar
          apply Takes.iteFalse (by simpa using notEscape)
          apply (Takes.skip notReturn).bind
          rw [if_neg (by simpa using notReturn)]
          exact .pure _
        · simpa using whole
    | @escape chunk raw' cooked' meaning escapes later =>
        right
        have form := escapes delimiter delimits
        refine ⟨meaning.toList ++ reversed, raw' ++ delimiter, ?_, ?_, raw', cooked', rfl, later, ?_⟩
        · rw [List.cons_append, List.append_assoc]
          apply Takes.bind Takes.peek?
          apply Takes.iteFalse (by decide)
          apply Takes.bind Takes.peekSecond?
          apply Takes.iteFalse (by simp)
          apply Takes.position
          intro place
          apply (Takes.skip (by decide)).bind
          exact (readEscape_takes place true form).bind (.pure _)
        · simp only [List.cons_append, List.length_cons, List.length_append]
          omega
        · cases meaning <;> simpa using whole
  · rintro last between ⟨unread, isLast⟩ leads
    refine (templateRound_closes start cursor last opensHole unread).mono ?_
    rintro outcome after ⟨rfl, remains, leads'⟩
    refine ⟨?_, remains, leads.trans leads'⟩
    rw [pieceBetween_eq leads (by rw [unread, equal]), isLast, text.normalized,
      String.ofList_toList, String.ofList_toList]

end Reader

end ExprScript
