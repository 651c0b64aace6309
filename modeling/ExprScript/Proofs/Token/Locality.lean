import ExprScript.Proofs.Token.NumeralForm

/-! # Where a token ends

What a reader makes of a text depends on the characters that it passes and on what
follows them up to the place where it can see that they are over. A string tells its
own end, while a number and a name go on until something follows that is no part of
them; a blank is never a part of them.
-/

namespace ExprScript

def Idle (next : Option Char) : Prop := ∀ c, next = some c → Text.isBlank c = true

/-- A relation between what followed a text when it was read and what may follow it
instead. -/
structure Sequel where
  Allows : List Char → List Char → Prop
  prepend : ∀ {rest rest' : List Char} (passed : List Char), Allows rest rest' →
    Allows (passed ++ rest) (passed ++ rest')

namespace Sequel

def anything : Sequel := ⟨fun _ _ => True, fun _ _ => trivial⟩

def upTo (delimiter : Char) : Sequel where
  Allows rest rest' := ∃ common tail tail',
    rest = common ++ delimiter :: tail ∧ rest' = common ++ delimiter :: tail'
  prepend := by
    rintro rest rest' passed ⟨common, tail, tail', rfl, rfl⟩
    exact ⟨passed ++ common, tail, tail', by rw [List.append_assoc], by rw [List.append_assoc]⟩

def apart : Sequel where
  Allows rest rest' := ∃ common tail tail',
    rest = common ++ tail ∧ rest' = common ++ tail' ∧ Idle tail'.head?
  prepend := by
    rintro rest rest' passed ⟨common, tail, tail', rfl, rfl, idle⟩
    exact ⟨passed ++ common, tail, tail', by rw [List.append_assoc], by rw [List.append_assoc],
      idle⟩

theorem head_upTo {delimiter : Char} {rest rest' : List Char}
    (allows : (upTo delimiter).Allows rest rest') : rest'.head? = rest.head? := by
  rcases allows with ⟨common, tail, tail', rfl, rfl⟩
  cases common with
  | nil => rfl
  | cons => rfl

theorem head_apart {rest rest' : List Char} (allows : apart.Allows rest rest') :
    rest'.head? = rest.head? ∨ Idle rest'.head? := by
  rcases allows with ⟨common, tail, tail', rfl, rfl, idle⟩
  cases common with
  | nil => exact .inr idle
  | cons => exact .inl rfl

theorem apart_refl (rest : List Char) : apart.Allows rest rest :=
  ⟨rest, [], [], (List.append_nil rest).symm, (List.append_nil rest).symm, nofun⟩

end Sequel

namespace Reader

open Cursor

variable {α β : Type} {sequel : Sequel} {before : Cursor}

/-- If the left reader succeeds, the right one gives the same result for the text that
was passed, with any sequel that is allowed behind it. -/
def Repeats (sequel : Sequel) (left right : Reader α) (before : Cursor) : Prop :=
  Ensures left before fun result after => ∃ passed, before.rest = passed ++ after.rest ∧
    ∀ rest, sequel.Allows after.rest rest → Takes right (passed ++ rest) result rest

namespace Repeats

theorem pure (result : α) : Repeats sequel (Pure.pure result) (Pure.pure result) before :=
  Ensures.pure ⟨[], rfl, fun _ _ => Takes.pure _⟩

theorem fail {cause : Cause} {position : Position} {right : Reader α} :
    Repeats sequel (fail cause position) right before :=
  Ensures.throw _

theorem bind {left right : Reader α} {next next' : α → Reader β}
    (first : Repeats sequel left right before)
    (later : ∀ value middle, left before = .ok value middle →
      Repeats sequel (next value) (next' value) middle) :
    Repeats sequel (left >>= next) (right >>= next') before := by
  refine Ensures.bind fun value middle run => ?_
  rcases first value middle run with ⟨passed, text, takes⟩
  refine (later value middle run).mono ?_
  rintro result after ⟨passed', text', takes'⟩
  refine ⟨passed ++ passed', by rw [text, text', List.append_assoc], fun rest allows => ?_⟩
  rw [List.append_assoc]
  rw [text'] at takes
  exact (takes _ (sequel.prepend passed' allows)).bind (takes' rest allows)

theorem position {next next' : Position → Reader α}
    (later : ∀ place place', Repeats sequel (next place) (next' place') before) :
    Repeats sequel (position >>= next) (position >>= next') before := by
  refine Ensures.bind (.get (.pure fun result after run => ?_))
  rcases later before.position before.position result after run with ⟨passed, text, -⟩
  refine ⟨passed, text, fun rest allows => Takes.position fun place => ?_⟩
  rcases later before.position place result after run with ⟨passed', text', takes⟩
  cases List.append_cancel_right (text'.symm.trans text)
  exact takes rest allows

theorem ite {condition : Prop} [Decidable condition] {left left' right right' : Reader α}
    (whenTrue : condition → Repeats sequel left right before)
    (whenFalse : ¬ condition → Repeats sequel left' right' before) :
    Repeats sequel (if condition then left else left') (if condition then right else right')
      before := by
  split
  · exact whenTrue ‹_›
  · exact whenFalse ‹_›

theorem skip {c : Char} {others : List Char} (text : before.rest = c :: others)
    (single : c ≠ '\r') : Repeats sequel skip skip before := by
  intro _ after run
  cases run
  have remains := Takes.advance single before text
  exact ⟨[c], by rw [text, remains]; rfl, fun rest _ => Takes.skip single⟩

theorem advance? {c : Char} {others : List Char} (text : before.rest = c :: others)
    (single : c ≠ '\r') : Repeats sequel advance? advance? before := by
  intro result after run
  cases run
  have remains := Takes.advance single before text
  refine ⟨[c], by rw [text, remains]; rfl, fun rest _ => ?_⟩
  rw [Cursor.peek?, text]
  exact Takes.advance? single

end Repeats

/-! ## Loops -/

def GoesOn (sequel : Sequel) (left right : Reader (Round α β)) (before : Cursor) : Prop :=
  Ensures left before fun outcome after => ∀ next, outcome = .again next → ∃ passed,
    before.rest = passed ++ after.rest ∧
      ∀ rest, sequel.Allows after.rest rest → Takes right (passed ++ rest) (.again next) rest

theorem Repeats.goesOn {left right : Reader (Round α β)}
    (repeats : Repeats sequel left right before) : GoesOn sequel left right before := by
  intro outcome after run next again
  subst again
  exact repeats _ _ run

section Loops

variable {round round' : α → Reader (Round α β)}

theorem loop_rounds (round : α → Reader (Round α β)) (value : α) (before : Cursor) :
    Ensures (loop round value) before fun result after => ∃ count last between,
      Rounds round count value before last between ∧
        round last between = .ok (.done result) after := by
  apply Ensures.get
  refine .repeatWithin (fun last between => ∃ count, Rounds round count value before last between)
    ?_ (fun _ => .bindAny fun _ _ => .throw _) _ ⟨0, .none⟩
  rintro last between ⟨count, rounds⟩ outcome after run
  cases outcome with
  | again next => exact ⟨count + 1, rounds.trans (.single run)⟩
  | done result => exact ⟨count, last, between, rounds, run⟩

theorem turns_of_rounds (lively : ∀ value before, Lively (round value) before)
    (goesOn : ∀ value before, GoesOn sequel (round value) (round' value) before)
    {count : Nat} {value last : α} {before between : Cursor}
    (rounds : Rounds round count value before last between) :
    ∃ passed, before.rest = passed ++ between.rest ∧
      ∀ rest, sequel.Allows between.rest rest → Turns round' value (passed ++ rest) last rest := by
  induction rounds with
  | none => exact ⟨[], rfl, fun _ _ => .none⟩
  | one run _ induction =>
      rcases goesOn _ _ _ _ run _ rfl with ⟨passed, text, takes⟩
      rcases induction with ⟨passed', text', turns⟩
      have passes : Passes _ _ := (lively _ _).ensures _ _ run
      refine ⟨passed ++ passed', by rw [text, text', List.append_assoc], fun rest allows => ?_⟩
      rw [text'] at takes
      rw [List.append_assoc]
      refine .one (takes _ (sequel.prepend passed' allows)) ?_ (turns rest allows)
      have longer := passes.2
      rw [text] at longer
      simp only [List.length_append] at longer ⊢
      omega

theorem rounds_leads (lively : ∀ value before, Lively (round value) before) {count : Nat}
    {value last : α} {before between : Cursor}
    (rounds : Rounds round count value before last between) : before.Leads between := by
  induction rounds with
  | none => exact .refl _
  | one run _ induction =>
      have passes : Passes _ _ := (lively _ _).ensures _ _ run
      exact passes.1.trans induction

theorem Turns.takes {value last : α} {text middle rest : List Char} {result : β}
    (turns : Turns round value text last middle)
    (done : Takes (round last) middle (.done result) rest) :
    Takes (Reader.loop round value) text result rest := by
  intro cursor unread
  refine turns.loop unread fun between remains leads => ?_
  refine (done between remains).mono ?_
  rintro outcome after ⟨rfl, remains', leads'⟩
  exact ⟨rfl, remains', leads.trans leads'⟩

theorem Repeats.loop (lively : ∀ value before, Lively (round value) before)
    (repeats : ∀ value before, Repeats sequel (round value) (round' value) before) (value : α) :
    Repeats sequel (Reader.loop round value) (Reader.loop round' value) before := by
  refine (loop_rounds round value before).mono ?_
  rintro result after ⟨count, last, between, rounds, run⟩
  rcases turns_of_rounds lively (fun value before => (repeats value before).goesOn) rounds with
    ⟨passed, text, turns⟩
  rcases repeats last between _ _ run with ⟨passed', text', takes⟩
  refine ⟨passed ++ passed', by rw [text, text', List.append_assoc], fun rest allows => ?_⟩
  rw [text'] at turns
  rw [List.append_assoc]
  exact (turns _ (sequel.prepend passed' allows)).takes (takes rest allows)

end Loops

/-! ## Escapes -/

theorem readUnicodeCode_repeats (start start' : Position) (before : Cursor) :
    Repeats sequel (readUnicodeCode start) (readUnicodeCode start') before := by
  refine (readUnicodeCode_ensures start before).mono ?_
  rintro code after ⟨chars, text, isCode⟩
  exact ⟨chars, text, fun rest _ => readUnicodeCode_takes start' isCode⟩

theorem readHexEscape_repeats (start start' : Position) (before : Cursor) :
    Repeats sequel (readHexEscape start) (readHexEscape start') before := by
  refine (readHexEscape_ensures start before).mono ?_
  rintro code after ⟨high, low, high', low', text, first, second, rfl⟩
  exact ⟨[high, low], text, fun rest _ => readHexEscape_takes start' first second⟩

structure Delimiter (delimiter : Char) : Prop where
  noDigit : Number.digitValue? 16 delimiter = none
  noBrace : delimiter ≠ '\x7b' ∧ delimiter ≠ '\x7d'
  noEscape : delimiter ≠ '\\' ∧ delimiter ≠ 'u'

variable {delimiter : Char}

theorem IsReturn.advance {chunk rest : List Char} (isReturn : IsReturn chunk rest)
    {cursor : Cursor} (unread : cursor.rest = chunk ++ rest) : cursor.advance.rest = rest := by
  rcases isReturn with rfl | ⟨rfl, noFeed⟩
  · unfold Cursor.advance
    rw [unread]
    rfl
  · have unread : cursor.rest = '\r' :: rest := unread
    rcases Cursor.rest_advance (congrArg List.head? unread) with remains | ⟨-, remains⟩
    · rw [unread] at remains
      exact (List.cons.inj remains).2.symm
    · rw [unread] at remains
      rw [(List.cons.inj remains).2] at noFeed
      exact absurd rfl noFeed

theorem advance_alike (before : Cursor) : ∃ chunk, before.rest = chunk ++ before.advance.rest ∧
    ∀ rest, rest.head? = before.advance.rest.head? → ∀ cursor : Cursor,
      cursor.rest = chunk ++ rest → cursor.advance.rest = rest ∧ cursor.peek? = before.peek? := by
  cases text : before.rest with
  | nil =>
      have stays : before.advance = before := by
        unfold Cursor.advance
        rw [text]
      rw [stays, text]
      refine ⟨[], rfl, fun rest same cursor unread => ?_⟩
      cases List.head?_eq_none_iff.mp same
      have stays' : cursor.advance = cursor := by
        unfold Cursor.advance
        rw [unread]
        rfl
      rw [stays', Cursor.peek?, Cursor.peek?, text, unread]
      exact ⟨rfl, rfl⟩
  | cons c others =>
      by_cases isReturn : c = '\r'
      · subst isReturn
        rcases advance_return text with ⟨chunk, parts, form⟩
        rw [text] at parts
        refine ⟨chunk, parts, fun rest same cursor unread => ?_⟩
        have isReturn : IsReturn chunk rest := form.imp_right fun single => by rwa [same]
        refine ⟨isReturn.advance unread, ?_⟩
        rw [Cursor.peek?, Cursor.peek?, text, unread]
        rcases form with rfl | ⟨rfl, -⟩ <;> rfl
      · have remains := Takes.advance isReturn before text
        refine ⟨[c], by rw [remains]; rfl, fun rest same cursor unread => ⟨?_, ?_⟩⟩
        · exact Takes.advance isReturn cursor unread
        · rw [Cursor.peek?, Cursor.peek?, text, unread]
          rfl

namespace Repeats

theorem peek?_upTo {next next' : Option Char → Reader α}
    (later : Repeats (.upTo delimiter) (next before.peek?) (next' before.peek?) before) :
    Repeats (.upTo delimiter) (Reader.peek? >>= next) (Reader.peek? >>= next') before := by
  refine peek?_bind fun result after run => ?_
  rcases later _ _ run with ⟨passed, text, takes⟩
  refine ⟨passed, text, fun rest allows => Takes.peek?.bind ?_⟩
  have head := Sequel.head_upTo (Sequel.prepend _ passed allows)
  rw [← text] at head
  rw [head]
  exact takes rest allows

theorem skip_upTo : Repeats (.upTo delimiter) Reader.skip Reader.skip before := by
  rintro _ after run
  cases run
  rcases advance_alike before with ⟨chunk, text, advances⟩
  refine ⟨chunk, text, fun rest allows cursor unread => ?_⟩
  exact ⟨(), cursor.advance, rfl, rfl, (advances rest (Sequel.head_upTo allows) cursor unread).1,
    cursor.leads_advance⟩

theorem advance?_upTo : Repeats (.upTo delimiter) Reader.advance? Reader.advance? before := by
  rintro _ after run
  cases run
  rcases advance_alike before with ⟨chunk, text, advances⟩
  refine ⟨chunk, text, fun rest allows cursor unread => ?_⟩
  rcases advances rest (Sequel.head_upTo allows) cursor unread with ⟨remains, same⟩
  exact ⟨cursor.peek?, cursor.advance, rfl, same, remains, cursor.leads_advance⟩

end Repeats

theorem peekDigit?_repeats (radix : Nat) (before : Cursor) :
    Repeats (.upTo delimiter) (peekDigit? radix) (peekDigit? radix) before :=
  .peek?_upTo (.pure _)

theorem readDigitsUpTo_repeats (radix count value : Nat) (before : Cursor) :
    Repeats (.upTo delimiter) (readDigitsUpTo radix count value)
      (readDigitsUpTo radix count value) before := by
  induction count generalizing value before with
  | zero => exact .pure _
  | succ count induction =>
      refine .bind (peekDigit?_repeats radix before) fun digit _ _ => ?_
      split
      · exact .bind .skip_upTo fun _ _ _ => induction _ _
      · exact .pure _

theorem readDigitEscape_repeats (start start' : Position) (inTemplate : Bool) (digit : Char)
    (before : Cursor) : Repeats (.upTo delimiter) (readDigitEscape start inTemplate digit)
      (readDigitEscape start' inTemplate digit) before := by
  have octal : ∀ value, Repeats (.upTo delimiter)
      (do let code ← readDigitsUpTo 8 (if value ≤ 3 then 2 else 1) value
          return { character? := some (charOfCode code), octal := true } : Reader Escape)
      (do let code ← readDigitsUpTo 8 (if value ≤ 3 then 2 else 1) value
          return { character? := some (charOfCode code), octal := true } : Reader Escape) before :=
    fun value => .bind (readDigitsUpTo_repeats _ _ _ _) fun _ _ _ => .pure _
  refine .peek?_upTo (.ite (fun _ => .pure _) fun _ => .ite (fun _ => .ite (fun _ => ?_) fun _ => ?_)
    fun _ => .ite (fun _ => ?_) fun _ => .pure _)
  · exact .bind .fail fun _ _ _ => .bind (readDigitsUpTo_repeats _ _ _ _) fun _ _ _ => .pure _
  · exact octal _
  · exact .bind .fail fun _ _ _ => .pure _

theorem prefix_of_outside {chars common tail : List Char} (outside : delimiter ∉ chars)
    (starts : chars <+: common ++ delimiter :: tail) : chars <+: common := by
  have next : common ++ [delimiter] <+: common ++ delimiter :: tail :=
    (List.prefix_append_right_inj _).mpr ⟨tail, rfl⟩
  rcases List.prefix_or_prefix_of_prefix starts next with shorter | longer
  · rcases List.prefix_concat_iff.mp shorter with equal | starts
    · exact absurd (equal ▸ List.mem_concat_self) outside
    · exact starts
  · exact absurd (longer.subset List.mem_concat_self) outside

theorem readUnicodeEscape_repeats (delimits : Delimiter delimiter) (start start' : Position)
    (before : Cursor) :
    Repeats (.upTo delimiter) (readUnicodeEscape start) (readUnicodeEscape start') before := by
  refine (readUnicodeEscape_ensures start before).mono ?_
  rintro c after ⟨chunk, text, escapes⟩
  refine ⟨chunk, text, ?_⟩
  rintro _ ⟨common, tail, tail', equal, rfl⟩
  rw [equal] at escapes
  generalize written : 'u' :: chunk = whole, meant : some c = meaning at escapes
  cases escapes with
  | letter found =>
      cases written
      cases found
  | lineEnd ends =>
      cases written
      cases ends
  | hex | zero => cases written
  | self _ _ noCode =>
      cases written
      exact absurd rfl noCode.2
  | @pair chars chars' high low first second isHigh isLow =>
      rw [(List.cons.inj written).2, Option.some.inj meant, List.append_assoc]
      exact readUnicodeEscape_takes_pair start' first second isHigh isLow
  | unicode isCode alone =>
      rw [(List.cons.inj written).2, Option.some.inj meant]
      refine readUnicodeEscape_takes start' isCode fun isHigh chars' code' others same isCode' => ?_
      -- The delimiter is no part of the second escape, which so lies before it.
      have outside : delimiter ∉ '\\' :: 'u' :: chars' := by
        have outside := isCode'.outside delimits.noDigit delimits.noBrace
        simp [delimits.noEscape, outside]
      rcases prefix_of_outside outside ⟨others, same.symm⟩ with ⟨others', rfl⟩
      exact alone isHigh chars' code' (others' ++ delimiter :: tail) (by simp) isCode'

theorem readEscape_repeats (delimits : Delimiter delimiter) (start start' : Position)
    (inTemplate : Bool) (before : Cursor) :
    Repeats (.upTo delimiter) (readEscape start inTemplate) (readEscape start' inTemplate)
      before := by
  refine .bind .advance?_upTo fun next _ _ => ?_
  split
  · exact .fail
  · split
    · exact .pure _
    · refine .ite (fun _ => .pure _) fun _ => .ite (fun _ => ?_) fun _ => .ite (fun _ => ?_) fun _ =>
        .ite (fun _ => ?_) fun _ => .pure _
      · exact .bind (readHexEscape_repeats _ _ _) fun _ _ _ => .pure _
      · exact .bind (readUnicodeEscape_repeats delimits _ _ _) fun _ _ _ => .pure _
      · exact readDigitEscape_repeats _ _ _ _ _

/-! ## Strings -/

theorem stringRound_repeats (delimits : Delimiter delimiter) (start start' : Position)
    (quote : Char) (state : List Char × Bool) (before : Cursor) :
    Repeats (.upTo delimiter) (stringRound start quote state) (stringRound start' quote state)
      before := by
  refine .peek?_upTo ?_
  split
  · exact .fail
  · exact .fail
  · exact .fail
  · refine .ite (fun _ => .bind .skip_upTo fun _ _ _ => .pure _) fun _ => .ite (fun _ => ?_) fun _ =>
      .bind .skip_upTo fun _ _ _ => .pure _
    refine .position fun place place' => .bind .skip_upTo fun _ _ _ => ?_
    exact .bind (readEscape_repeats delimits place place' false _) fun _ _ _ => .pure _

theorem stringRound_done (start : Position) {quote : Char} (single : quote ≠ '\r')
    (state : List Char × Bool) (before : Cursor) :
    Ensures (stringRound start quote state) before fun outcome after =>
      ∀ result, outcome = .done result → result = state ∧ before.rest = quote :: after.rest := by
  refine peek?_bind ?_
  split
  · exact .throw _
  · exact .throw _
  · exact .throw _
  · next c _ _ head =>
      refine .ite (fun isQuote => ?_) fun _ => .ite (fun _ => ?_) fun _ => ?_
      · cases eq_of_beq isQuote
        rcases List.head?_eq_some_iff.mp head with ⟨others, text⟩
        refine skip_bind text single fun after remains => .pure ?_
        rintro result same
        cases same
        exact ⟨rfl, by rw [text, remains]⟩
      · exact .bindAny fun _ _ => .bindAny fun _ _ => .bindAny fun _ _ => .pure nofun
      · exact .bindAny fun _ _ => .pure nofun

theorem stringRound_takes (start : Position) {quote : Char} (delimits : Delimiter quote)
    (inLine : quote ≠ '\n' ∧ quote ≠ '\r') (state : List Char × Bool) (rest : List Char) :
    Takes (stringRound start quote state) (quote :: rest) (.done state) rest := by
  apply Takes.bind Takes.peek?
  dsimp only [List.head?_cons]
  split
  · next wrong => cases wrong
  · next wrong => cases wrong; exact absurd rfl inLine.1
  · next wrong => cases wrong; exact absurd rfl inLine.2
  · next same =>
      cases same
      apply Takes.iteTrue (by simp)
      exact (Takes.skip inLine.2).bind (.pure _)

theorem readString_repeats (start start' : Position) {quote : Char} {before : Cursor}
    (head : before.peek? = some quote) (isQuote : quote = '\x22' ∨ quote = '\x27') :
    Repeats .anything (readString start) (readString start') before := by
  have delimits : Delimiter quote := by
    rcases isQuote with rfl | rfl <;> exact ⟨by decide, by decide, by decide⟩
  have inLine : quote ≠ '\n' ∧ quote ≠ '\r' := by
    rcases isQuote with rfl | rfl <;> decide
  rcases List.head?_eq_some_iff.mp head with ⟨others, unread⟩
  have remains := Takes.advance inLine.2 before unread
  rw [readString_eq, readString_eq]
  refine advance?_bind ?_
  rw [unread]
  refine .bind ((loop_rounds _ _ _).mono ?_)
  rintro state after ⟨count, last, between, rounds, run⟩
  rcases stringRound_done start inLine.2 last between _ _ run _ rfl with ⟨rfl, closed⟩
  rcases turns_of_rounds (stringRound_lively start quote)
    (fun state before => (stringRound_repeats delimits start start' quote state before).goesOn)
    rounds with ⟨passed, text, turns⟩
  rw [remains, closed] at text
  refine .pure ⟨quote :: (passed ++ [quote]), by simp [text], fun rest _ => ?_⟩
  have written : quote :: (passed ++ [quote]) ++ rest = quote :: (passed ++ quote :: rest) := by
    simp
  rw [written]
  apply (Takes.advance? inLine.2).bind
  have allows : (Sequel.upTo quote).Allows between.rest (quote :: rest) :=
    ⟨[], after.rest, rest, closed, rfl⟩
  exact ((turns _ allows).takes (stringRound_takes start' delimits inLine _ rest)).bind (.pure _)

/-! ## Templates -/

theorem templateCharacter_repeats (delimits : Delimiter delimiter) (c : Char)
    (reversed : List Char) (before : Cursor) :
    Repeats (.upTo delimiter) (templateCharacter c reversed) (templateCharacter c reversed)
      before := by
  refine .ite (fun _ => ?_) fun _ => .bind .skip_upTo fun _ _ _ => .pure _
  refine .position fun place place' => .bind .skip_upTo fun _ _ _ => ?_
  exact .bind (readEscape_repeats delimits place place' true _) fun _ _ _ => .pure _

theorem templateRound_goesOn (delimits : Delimiter delimiter) (start start' : Position)
    (body body' : Cursor) (reversed : List Char) (before : Cursor) :
    GoesOn (.upTo delimiter) (templateRound start body reversed)
      (templateRound start' body' reversed) before := by
  refine (Ensures.both (templateRound_lively start body reversed before).ensures
    (?_ : Ensures _ _ fun outcome after => ∀ next, outcome = .again next → ∃ passed,
      before.rest = passed ++ after.rest ∧ (passed ≠ [] →
        ∀ rest, (Sequel.upTo delimiter).Allows after.rest rest →
          Takes (templateRound start' body' reversed) (passed ++ rest) (.again next) rest))).mono ?_
  · refine peek?_bind ?_
    cases unread : before.rest with
    | nil => exact .throw _
    | cons c others =>
        refine .ite (fun _ => .get (.bindAny fun _ _ => .pure nofun)) fun notQuote => ?_
        refine .bind (.get (.pure (.ite (fun _ => ?_) fun notHole => ?_)))
        · exact .get (.bindAny fun _ _ => .bindAny fun _ _ => .pure nofun)
        intro outcome after run next again
        subst again
        rcases templateCharacter_repeats delimits c reversed before _ _ run with
          ⟨passed, text, takes⟩
        refine ⟨passed, unread ▸ text, fun notEmpty rest allows => ?_⟩
        rcases List.exists_cons_of_ne_nil notEmpty with ⟨d, passed, rfl⟩
        rw [unread] at text
        have others' : others = passed ++ after.rest := (List.cons.inj text).2
        cases (List.cons.inj text).1
        apply Takes.bind Takes.peek?
        apply Takes.iteFalse notQuote
        apply Takes.bind Takes.peekSecond?
        apply Takes.iteFalse _ (takes rest allows)
        have second := Sequel.head_upTo (Sequel.prepend _ passed allows)
        rw [← others'] at second
        rw [Cursor.peekSecond?, unread] at notHole
        rwa [List.cons_append, List.getElem?_cons_succ, ← List.head?_eq_getElem?, second,
          List.head?_eq_getElem?, ← List.getElem?_cons_succ]
  · rintro outcome after ⟨lively, goesOn⟩ next rfl
    rcases goesOn next rfl with ⟨passed, text, takes⟩
    refine ⟨passed, text, takes ?_⟩
    rintro rfl
    have shorter : after.rest.length < before.rest.length := lively.2
    rw [text] at shorter
    exact absurd shorter (Nat.lt_irrefl _)

/-- The text of a template is over where it is closed or a hole is opened. -/
theorem templateRound_done (start : Position) (body : Cursor) (reversed : List Char)
    (before : Cursor) : Ensures (templateRound start body reversed) before fun outcome after =>
      ∀ piece, outcome = .done piece → ∃ opensHole,
        piece = pieceBetween body before reversed opensHole ∧
          before.rest = Scanner.pieceEnd opensHole ++ after.rest := by
  refine peek?_bind ?_
  cases unread : before.rest with
  | nil => exact .throw _
  | cons c others =>
      refine .ite (fun isQuote => ?_) fun _ => ?_
      · cases eq_of_beq isQuote
        refine .get (skip_bind unread (by decide) fun after remains => .pure ?_)
        rintro piece same
        cases same
        exact ⟨false, rfl, by rw [remains]; rfl⟩
      refine .bind (.get (.pure (.ite (fun isHole => ?_) fun _ => ?_)))
      · simp only [Bool.and_eq_true, beq_iff_eq] at isHole
        rcases isHole with ⟨rfl, second⟩
        rw [Cursor.peekSecond?, unread, List.getElem?_cons_succ, ← List.head?_eq_getElem?] at second
        rcases List.head?_eq_some_iff.mp second with ⟨others', rfl⟩
        refine .get (skip_bind unread (by decide) fun middle remains => ?_)
        refine skip_bind remains (by decide) fun after remains => .pure ?_
        rintro piece same
        cases same
        exact ⟨true, rfl, by rw [remains]; rfl⟩
      · refine .ite (fun _ => ?_) fun _ => .bindAny fun _ _ => .pure ?_
        · exact .bindAny fun _ _ => .bindAny fun _ _ => .bindAny fun _ _ => .pure (by rintro _ ⟨⟩)
        · rintro _ ⟨⟩

theorem readTemplatePiece_repeats (start start' : Position) (before : Cursor) :
    Repeats .anything (readTemplatePiece start) (readTemplatePiece start') before := by
  rw [readTemplatePiece_eq, readTemplatePiece_eq]
  apply Ensures.get
  refine (loop_rounds _ _ _).mono ?_
  rintro piece after ⟨count, last, between, rounds, run⟩
  rcases templateRound_done start before last between _ _ run _ rfl with
    ⟨opensHole, rfl, closed⟩
  have ends : ∃ delimiter others, Scanner.pieceEnd opensHole = delimiter :: others ∧
      Delimiter delimiter := by
    cases opensHole with
    | false => exact ⟨_, _, rfl, by decide, by decide, by decide⟩
    | true => exact ⟨_, _, rfl, by decide, by decide, by decide⟩
  rcases ends with ⟨delimiter, others, isEnd, delimits⟩
  have lively := templateRound_lively start before
  have leads := rounds_leads lively rounds
  have goesOn := fun body' reversed cursor =>
    templateRound_goesOn delimits start start' before body' reversed cursor
  rcases turns_of_rounds lively (goesOn before) rounds with ⟨passed, text, -⟩
  refine ⟨passed ++ Scanner.pieceEnd opensHole, by rw [text, closed, List.append_assoc], ?_⟩
  intro rest _ cursor unread
  rw [List.append_assoc] at unread
  rcases turns_of_rounds lively (goesOn cursor) rounds with ⟨passed', text', turns⟩
  cases List.append_cancel_right (text'.symm.trans text)
  have allows : (Sequel.upTo delimiter).Allows between.rest (Scanner.pieceEnd opensHole ++ rest) := by
    rw [closed, isEnd]
    exact ⟨[], _, _, rfl, rfl⟩
  refine .get ((turns _ allows).loop unread fun between' remains leads' => ?_)
  refine (templateRound_closes start' cursor last opensHole remains).mono ?_
  rintro outcome after' ⟨rfl, remains', leads''⟩
  refine ⟨?_, remains', leads'.trans leads''⟩
  rw [pieceBetween_eq leads text, pieceBetween_eq leads' (unread.trans (congrArg _ remains.symm))]

/-! ## Numbers and names -/

def Solid (goesOn : Char → Bool) : Prop := ∀ c, Text.isBlank c = true → goesOn c = false

theorem solid_of_parts {goesOn : Char → Bool}
    (parts : ∀ c, goesOn c = true → Text.isNamePart c = true ∨ Text.isBlank c = false) :
    Solid goesOn := by
  intro c blank
  cases found : goesOn c with
  | false => rfl
  | true =>
      rcases parts c found with isPart | notBlank
      · rw [Scanner.isBlank_of_isNamePart isPart] at blank
        cases blank
      · rw [notBlank] at blank
        cases blank

theorem Solid.ne_return {goesOn : Char → Bool} (solid : Solid goesOn) {c : Char}
    (goes : goesOn c = true) : c ≠ '\r' := by
  rintro rfl
  rw [solid '\r' (by decide)] at goes
  cases goes

def Over (goesOn : Char → Bool) (next : Option Char) : Prop :=
  ∀ c, next = some c → goesOn c = false

def Moves (sequel : Sequel) (left right : Reader α) (before : Cursor) : Prop :=
  Ensures left before fun result after => ∃ passed, passed ≠ [] ∧
    before.rest = passed ++ after.rest ∧
      ∀ rest, sequel.Allows after.rest rest → Takes right (passed ++ rest) result rest

namespace Moves

theorem repeats {left right : Reader α} (moves : Moves sequel left right before) :
    Repeats sequel left right before := by
  refine moves.mono ?_
  rintro result after ⟨passed, -, text, takes⟩
  exact ⟨passed, text, takes⟩

theorem of_shorter {left right : Reader α} (repeats : Repeats sequel left right before)
    (shorter : Ensures left before fun _ after => after.rest.length < before.rest.length) :
    Moves sequel left right before := by
  refine (repeats.both shorter).mono ?_
  rintro result after ⟨⟨passed, text, takes⟩, shorter⟩
  refine ⟨passed, ?_, text, takes⟩
  rintro rfl
  rw [text] at shorter
  exact absurd shorter (Nat.lt_irrefl _)

theorem of_advances {left right : Reader α} (repeats : Repeats sequel left right before)
    (advances : Advances left before) : Moves sequel left right before :=
  of_shorter repeats ((Safely.ensures advances).mono fun _ _ passes => passes.2)

theorem fails {cause : Cause} {next : Unit → Reader α} {right : Reader α} :
    Moves sequel (position >>= fun place => Reader.fail cause place >>= next) right before :=
  Ensures.bind (.get (.pure (.bind (.throw _))))

theorem bind {left right : Reader α} {next next' : α → Reader β}
    (first : Moves sequel left right before)
    (later : ∀ value middle, left before = .ok value middle →
      Repeats sequel (next value) (next' value) middle) :
    Moves sequel (left >>= next) (right >>= next') before := by
  refine of_shorter (first.repeats.bind later) (.bind fun value middle run => ?_)
  rcases first value middle run with ⟨passed, some, text, -⟩
  have longer := List.length_pos_of_ne_nil some
  refine (later value middle run).mono ?_
  rintro result after ⟨passed', text', -⟩
  rw [text, text']
  simp only [List.length_append]
  omega

theorem ite {condition : Prop} [Decidable condition] {left left' right right' : Reader α}
    (whenTrue : condition → Moves sequel left right before)
    (whenFalse : ¬ condition → Moves sequel left' right' before) :
    Moves sequel (if condition then left else left') (if condition then right else right')
      before := by
  split
  · exact whenTrue ‹_›
  · exact whenFalse ‹_›

theorem skip {c : Char} {others : List Char} (text : before.rest = c :: others)
    (single : c ≠ '\r') : Moves sequel skip skip before := by
  intro _ after run
  cases run
  have remains := Takes.advance single before text
  exact ⟨[c], nofun, by rw [text, remains]; rfl, fun rest _ => Takes.skip single⟩

end Moves

/-- A reader that looks whether the next character goes on with what it reads, and else
does the same whatever that character is. -/
theorem Repeats.peek? {goesOn : Char → Bool} (solid : Solid goesOn)
    {next next' : Option Char → Reader α} {left right : Reader α}
    (moves : ∀ c others, before.rest = c :: others → goesOn c = true →
      Moves .apart (next (some c)) (next' (some c)) before)
    (same : ∀ other, Over goesOn other → next other = left ∧ next' other = right)
    (stops : Repeats .apart left right before) :
    Repeats .apart (Reader.peek? >>= next) (Reader.peek? >>= next') before := by
  refine peek?_bind fun result after run => ?_
  by_cases ends : Over goesOn before.rest.head?
  · rw [(same _ ends).1] at run
    rcases stops _ _ run with ⟨passed, text, takes⟩
    refine ⟨passed, text, fun rest allows => Takes.peek?.bind ?_⟩
    have ends' : Over goesOn (passed ++ rest).head? := by
      rcases Sequel.head_apart (Sequel.prepend _ passed allows) with equal | idle
      · rw [equal, ← text]
        exact ends
      · exact fun c head => solid c (idle c head)
    rw [(same _ ends').2]
    exact takes rest allows
  · simp only [Over, not_forall, Bool.not_eq_false] at ends
    rcases ends with ⟨c, head, goes⟩
    rcases List.head?_eq_some_iff.mp head with ⟨others, unread⟩
    rw [head] at run
    rcases moves c others unread goes _ _ run with ⟨passed, some, text, takes⟩
    refine ⟨passed, text, fun rest allows => Takes.peek?.bind ?_⟩
    rcases List.exists_cons_of_ne_nil some with ⟨d, passed, rfl⟩
    rw [unread] at text
    cases (List.cons.inj text).1
    exact takes rest allows

theorem digit_solid (radix : Nat) : Solid fun c => c == '_' || Number.isDigitOf radix c := by
  refine solid_of_parts fun c goesOn => .inl ?_
  rcases Bool.or_eq_true_iff.mp goesOn with isSeparator | digit
  · cases eq_of_beq isSeparator
    decide
  · exact isNamePart_of_isDigitOf digit

theorem digitsRound_repeats (radix : Nat) (state : List Char × Bool) (before : Cursor) :
    Repeats .apart (digitsRound radix state) (digitsRound radix state) before := by
  rcases state with ⟨reversed, afterSeparator⟩
  let ended : Reader (Round (List Char × Bool) (List Char)) :=
    if afterSeparator then do fail .trailingSeparator (← position) else return .done reversed
  refine .peek? (digit_solid radix) (fun c others unread goes => ?_)
    (fun other ends => (?_ : _ = ended ∧ _ = ended)) ?_
  · have single := (digit_solid radix).ne_return goes
    have skips : ∀ next : List Char × Bool, Moves .apart
        (do skip; return .again next : Reader (Round (List Char × Bool) (List Char)))
        (do skip; return .again next) before :=
      fun next => .bind (.skip unread single) fun _ _ _ => .pure _
    refine .ite (fun _ => .ite (fun _ => .fails) fun _ => .ite (fun _ => .fails) fun _ => skips _)
      fun noSeparator => .ite (fun _ => skips _) fun noDigit => ?_
    exact absurd goes (by simp [noSeparator, noDigit])
  · rw [and_self]
    cases other with
    | none => rfl
    | some c =>
        have noDigit := ends c rfl
        rw [Bool.or_eq_false_iff] at noDigit
        simp only [noDigit]
        rfl
  · exact .ite (fun _ => .position fun _ _ => .fail) fun _ => .pure _

theorem readDigits_repeats (radix : Nat) (before : Cursor) :
    Repeats .apart (readDigits radix) (readDigits radix) before := by
  rw [readDigits_eq]
  exact .bind (.loop (digitsRound_lively radix) (digitsRound_repeats radix) _) fun _ _ _ => .pure _

theorem solid_of_notBlank {c : Char} (notBlank : Text.isBlank c = false) : Solid (· == c) :=
  solid_of_parts fun _ same => .inr (eq_of_beq same ▸ notBlank)

theorem readFraction_repeats (before : Cursor) :
    Repeats .apart readFraction readFraction before := by
  refine .peek? (solid_of_notBlank (rfl : Text.isBlank '.' = false))
    (fun c others unread isPoint => ?_)
    (fun other ends => (?_ : _ = Pure.pure [] ∧ _ = Pure.pure [])) (.pure _)
  · cases eq_of_beq isPoint
    exact .ite (fun _ => .bind (.skip unread (by decide)) fun _ _ _ => readDigits_repeats 10 _)
      fun wrong => absurd rfl wrong
  · rw [and_self]
    refine if_neg fun isPoint => ?_
    cases ends '.' (eq_of_beq isPoint)

theorem solid_or {first second : Char → Bool} (solid : Solid first) (solid' : Solid second) :
    Solid fun c => first c || second c := by
  intro c blank
  dsimp only
  rw [solid c blank, solid' c blank, Bool.or_false]

theorem readSign_repeats (before : Cursor) : Repeats .apart readSign readSign before := by
  have solid : Solid fun c => c == '-' || c == '+' :=
    solid_or (solid_of_notBlank rfl) (solid_of_notBlank rfl)
  refine .peek? solid (fun c others unread isSign => ?_)
    (fun other ends => (?_ : _ = Pure.pure false ∧ _ = Pure.pure false)) (.pure _)
  · have moves : ∀ negative : Bool, Moves .apart (do skip; return negative)
        (do skip; return negative) before :=
      fun _ => .bind (.skip unread (solid.ne_return isSign)) fun _ _ _ => .pure _
    rcases Bool.or_eq_true_iff.mp isSign with isMinus | isPlus
    · cases eq_of_beq isMinus
      exact moves true
    · cases eq_of_beq isPlus
      exact moves false
  · rw [and_self]
    split
    · cases ends '-' rfl
    · cases ends '+' rfl
    · rfl

theorem readExponent_repeats (before : Cursor) :
    Repeats .apart readExponent readExponent before := by
  have solid : Solid fun c => c == 'e' || c == 'E' :=
    solid_or (solid_of_notBlank rfl) (solid_of_notBlank rfl)
  refine .position fun start start' => .peek? solid (fun c others unread isMark => ?_)
    (fun other ends => (?_ : _ = (Pure.pure 0 : Reader Int) ∧ _ = (Pure.pure 0 : Reader Int)))
    (.pure _)
  · refine .ite (fun _ => .bind (.skip unread (solid.ne_return isMark)) fun _ _ _ => ?_)
      fun wrong => absurd isMark wrong
    refine .bind (readSign_repeats _) fun negative _ _ => .bind (readDigits_repeats 10 _) ?_
    exact fun digits _ _ => .ite (fun _ => .bind .fail fun _ _ _ => .pure _) fun _ => .pure _
  · cases other with
    | none => exact ⟨rfl, rfl⟩
    | some c => exact ⟨if_neg (by simp [ends c rfl]), if_neg (by simp [ends c rfl])⟩

theorem readDecimalTail_repeats (whole : List Char) (before : Cursor) :
    Repeats .apart (readDecimalTail whole) (readDecimalTail whole) before :=
  .bind (readFraction_repeats before) fun _ _ _ => .bind (readExponent_repeats _) fun _ _ _ =>
    .pure _

theorem readDecimal_repeats (before : Cursor) :
    Repeats .apart readDecimal readDecimal before := by
  refine .peek? (solid_of_notBlank (rfl : Text.isBlank '.' = false))
    (fun c others unread isPoint => ?_)
    (fun other ends => (⟨?_, ?_⟩ : _ = (readDigits 10 >>= readDecimalTail) ∧
      _ = (readDigits 10 >>= readDecimalTail)))
    (.bind (readDigits_repeats 10 before) fun _ _ _ => readDecimalTail_repeats _ _)
  · cases eq_of_beq isPoint
    have head : before.peek? = some '.' := congrArg List.head? unread
    refine .ite (fun _ => ?_) fun wrong => absurd rfl wrong
    exact .of_advances (readDecimalTail_repeats _ _) (readDecimalTail_advances head _)
  · refine if_neg fun isPoint => ?_
    cases ends '.' (eq_of_beq isPoint)
  · refine if_neg fun isPoint => ?_
    cases ends '.' (eq_of_beq isPoint)

/-- The mark of a radix is passed together with the zero in front of it. -/
theorem readRadixNumeral_repeats (radix : Nat) (start start' : Position) {before : Cursor}
    {mark : Char} {others : List Char} (unread : before.rest = '0' :: mark :: others)
    (single : mark ≠ '\r') :
    Ensures (readRadixNumeral radix start) before fun number after => ∃ passed,
      others = passed ++ after.rest ∧ ∀ rest, Sequel.apart.Allows after.rest rest →
        Takes (readRadixNumeral radix start') ('0' :: mark :: (passed ++ rest)) number rest := by
  refine skip_bind unread (by decide) fun middle remains => ?_
  refine skip_bind remains single fun behind remains' => ?_
  have repeats : Repeats .apart (do
      let digits ← readDigits radix
      if digits.isEmpty then fail .invalidToken start
      return Number.ofRadixDigits radix digits) (do
      let digits ← readDigits radix
      if digits.isEmpty then fail .invalidToken start'
      return Number.ofRadixDigits radix digits) behind :=
    .bind (readDigits_repeats radix behind) fun _ _ _ =>
      .ite (fun _ => .bind .fail fun _ _ _ => .pure _) fun _ => .pure _
  refine Ensures.mono repeats ?_
  rintro number after ⟨passed, text, takes⟩
  refine ⟨passed, remains' ▸ text, fun rest allows => ?_⟩
  exact (Takes.skip (by decide)).bind ((Takes.skip single).bind (takes rest allows))

def readAfterZero (digits : List Char) : Reader Float := do
  if ('0' :: digits).all (Number.isDigitOf 8) then
    return Number.ofRadixDigits 8 ('0' :: digits)
  else
    if (← peek?) == some '_' then fail .separatorNotAllowed (← position)
    readDecimalTail ('0' :: digits)

theorem readAfterZero_repeats (digits : List Char) (before : Cursor) :
    Repeats .apart (readAfterZero digits) (readAfterZero digits) before := by
  refine .ite (fun _ => .pure _) fun _ => ?_
  refine .peek? (solid_of_notBlank (rfl : Text.isBlank '_' = false))
    (fun c others unread isSeparator => ?_)
    (fun other ends => (?_ : _ = readDecimalTail ('0' :: digits) ∧
      _ = readDecimalTail ('0' :: digits))) (readDecimalTail_repeats _ _)
  · cases eq_of_beq isSeparator
    exact .ite (fun _ => .fails) fun wrong => absurd rfl wrong
  · rw [and_self]
    refine if_neg fun isSeparator => ?_
    cases ends '_' (eq_of_beq isSeparator)

theorem digits_solid : Solid Char.isDigit :=
  solid_of_parts fun _ digit => .inl (isNamePart_of_isDigit digit)

/-- The digit after the zero is passed together with it. -/
theorem readZeroNumeral_repeats {before : Cursor} {c : Char} {others : List Char}
    (unread : before.rest = '0' :: c :: others) (digit : c.isDigit = true) :
    Ensures readZeroNumeral before fun number after => ∃ passed,
      others = passed ++ after.rest ∧ ∀ rest, Sequel.apart.Allows after.rest rest →
        Takes readZeroNumeral ('0' :: c :: (passed ++ rest)) number rest := by
  let run := others.takeWhile Char.isDigit
  let left := others.dropWhile Char.isDigit
  have parts : others = run ++ left := List.takeWhile_append_dropWhile.symm
  have all : ∀ d ∈ c :: run, d.isDigit = true := by
    intro d member
    rcases List.mem_cons.mp member with rfl | member
    · exact digit
    · exact List.mem_takeWhile_imp member
  have isWhile : before.rest.takeWhile Char.isDigit = '0' :: c :: run := by
    rw [unread, List.takeWhile_cons_of_pos (by decide), List.takeWhile_cons_of_pos digit]
  have takes : Takes (skipMany ('0' :: c :: run).length) before.rest () left := by
    rw [unread, parts]
    refine @Scanner.skipMany_takes left ('0' :: c :: run) fun isReturn => ?_
    rcases List.mem_cons.mp isReturn with wrong | member
    · cases wrong
    · exact absurd (all _ member) (by decide)
  apply Ensures.get
  rw [isWhile]
  refine .bind (takes.ensures.mono ?_)
  rintro - middle ⟨-, remains⟩
  refine (readAfterZero_repeats (c :: run) middle).mono ?_
  rintro number after ⟨passed, text, again⟩
  refine ⟨run ++ passed, by rw [parts, ← remains, text, List.append_assoc], fun rest allows => ?_⟩
  rw [List.append_assoc]
  refine @readZeroNumeral_takes rest (c :: run) (passed ++ rest) number all ?_ (again rest allows)
  intro d head
  rcases Sequel.head_apart (Sequel.prepend _ passed allows) with same | idle
  · have stops := List.head?_dropWhile_not Char.isDigit others
    rw [← text, remains, head] at same
    rw [← same] at stops
    simpa using stops
  · exact digits_solid d (idle d head)

theorem followsZero_solid : Solid followsZero :=
  solid_of_parts fun c follows => by
    rcases isNamePart_of_followsZero follows with isPart | rfl | rfl
    · exact .inl isPart
    · exact .inr (by decide)
    · exact .inr (by decide)

theorem decimal_repeats (start' : Position) {before : Cursor} {c : Char}
    (head : before.peek? = some c) (starts : c.isDigit = true ∨ c = '.')
    (alone : ∀ d others, before.rest = '0' :: d :: others → followsZero d = false) :
    Repeats .apart (do return (← readDecimal, false)) (readNumeralBody start') before := by
  have moves := Moves.of_advances (readDecimal_repeats before) (readDecimal_advances head starts)
  refine Ensures.bind (Ensures.mono moves ?_)
  rintro number after ⟨passed, some, text, takes⟩
  refine .pure ⟨passed, text, fun rest allows => (takes rest allows).decimal ?_⟩
  intro d others written
  rcases List.exists_cons_of_ne_nil some with ⟨first, passed, rfl⟩
  rw [List.cons_append, List.cons_eq_cons] at written
  rcases written with ⟨rfl, written⟩
  rcases Sequel.head_apart (Sequel.prepend _ passed allows) with same | idle
  · rw [written] at same
    rcases List.head?_eq_some_iff.mp same.symm with ⟨others', unread⟩
    exact alone d others' (by rw [text, List.cons_append, unread])
  · exact followsZero_solid d (idle d (by rw [written]; rfl))

theorem readNumeralBody_repeats (start start' : Position) {before : Cursor} {c : Char}
    (head : before.peek? = some c) (starts : c.isDigit = true ∨ c = '.') :
    Repeats .apart (readNumeralBody start) (readNumeralBody start') before := by
  have decimal := @decimal_repeats start' before c head starts
  refine peek?_bind (.ite (fun notZero => decimal ?_) fun isZero => ?_)
  · intro d others unread
    simp [unread] at notZero
  have isZero : before.rest.head? = some '0' := by simpa using isZero
  rcases List.head?_eq_some_iff.mp isZero with ⟨others, unread⟩
  have second : before.peekSecond? = others.head? := by
    rw [Cursor.peekSecond?, unread, List.getElem?_cons_succ, ← List.head?_eq_getElem?]
  refine .bind (.get (.pure ?_))
  rw [second]
  cases others with
  | nil =>
      refine decimal fun d others unread' => ?_
      rw [unread'] at unread
      cases unread
  | cons mark others =>
      dsimp only [List.head?_cons]
      split
      · next radix found =>
          have single : mark ≠ '\r' := by
            rintro rfl
            cases found
          refine .bind ((readRadixNumeral_repeats radix start start' unread single).mono ?_)
          rintro number after ⟨passed, rfl, takes⟩
          refine .pure ⟨'0' :: mark :: passed, unread, fun rest allows => ?_⟩
          apply Takes.bind Takes.peek?
          apply Takes.iteFalse (by simp)
          apply Takes.bind Takes.peekSecond?
          simp only [List.cons_append, List.getElem?_cons_succ, List.getElem?_cons_zero, found]
          exact (takes rest allows).bind (.pure _)
      · next noRadix =>
          refine .ite (fun _ => .bindAny fun _ _ => .bindAny fun _ _ => .throw _) fun noSeparator =>
            .ite (fun digit => ?_) fun noDigit => decimal ?_
          · refine .bind ((readZeroNumeral_repeats unread digit).mono ?_)
            rintro number after ⟨passed, rfl, takes⟩
            refine .pure ⟨'0' :: mark :: passed, unread, fun rest allows => ?_⟩
            exact Takes.afterZero digit (takes rest allows)
          · intro d others' unread'
            rw [unread'] at unread
            cases unread
            simp [followsZero, noRadix, noSeparator, noDigit]

theorem readNumeral_repeats (start start' : Position) {before : Cursor} {c : Char}
    (head : before.peek? = some c) (starts : c.isDigit = true ∨ c = '.') :
    Repeats .apart (readNumeral start) (readNumeral start') before := by
  have solid : Solid fun c => Text.isNameStart c || c.isDigit || c == '\\' :=
    solid_or (solid_or (solid_of_parts fun c starts => .inl (isNamePart_of_isNameStart starts))
      digits_solid) (solid_of_notBlank rfl)
  refine .bind (readNumeralBody_repeats start start' head starts) fun result middle _ => ?_
  refine .peek? solid (fun c others unread goes => ?_)
    (fun other ends => (⟨if_neg ?_, if_neg ?_⟩ : _ = Pure.pure result ∧ _ = Pure.pure result))
    (.pure _)
  · exact .ite (fun _ => Ensures.bind (.throw _)) fun wrong => absurd goes wrong
  · cases other with
    | none => nofun
    | some c => simpa using ends c rfl
  · cases other with
    | none => nofun
    | some c => simpa using ends c rfl

/-! ## Names -/

theorem fitsName_solid (atStart : Bool) : Solid (fitsName atStart) :=
  solid_of_parts fun c fits => .inl (by
    cases atStart with
    | true => exact isNamePart_of_isNameStart fits
    | false => exact fits)

theorem readNameEscape_repeats (atStart : Bool) {before : Cursor} {others : List Char}
    (unread : before.rest = '\\' :: others) :
    Repeats sequel (readNameEscape atStart) (readNameEscape atStart) before := by
  refine .position fun start start' => .bind (.skip unread (by decide)) fun _ middle _ => ?_
  have code : ∀ cursor, Repeats sequel
      (do let code ← readUnicodeCode start
          if code.isValidChar && fitsName atStart (Char.ofNat code) then
            return Char.ofNat code
          else fail .invalidUnicodeEscape start)
      (do let code ← readUnicodeCode start'
          if code.isValidChar && fitsName atStart (Char.ofNat code) then
            return Char.ofNat code
          else fail .invalidUnicodeEscape start') cursor :=
    fun cursor => .bind (readUnicodeCode_repeats start start' cursor) fun _ _ _ =>
      .ite (fun _ => .pure _) fun _ => .fail
  by_cases isCode : middle.rest.head? = some 'u'
  · rcases List.head?_eq_some_iff.mp isCode with ⟨others, unread⟩
    exact .bind (.advance? unread (by decide)) fun _ cursor _ =>
      .ite (fun _ => .bind .fail fun _ _ _ => code _) fun _ => code _
  · refine advance?_bind (.ite (fun _ => .bind (.throw _)) fun wrong => ?_)
    exact absurd (by simpa using wrong) isCode

theorem nameRound_repeats (state : List Char × Bool) (before : Cursor) :
    Repeats .apart (nameRound state) (nameRound state) before := by
  rcases state with ⟨reversed, escaped⟩
  let done : Reader (Round (List Char × Bool) (List Char × Bool)) :=
    return .done (reversed, escaped)
  have solid : Solid fun c => c == '\\' || fitsName reversed.isEmpty c :=
    solid_or (solid_of_notBlank rfl) (fitsName_solid _)
  refine .peek? solid (fun c others unread goes => ?_)
    (fun other ends => (?_ : _ = done ∧ _ = done)) (.pure _)
  · refine .ite (fun isEscape => ?_) fun noEscape => .ite (fun _ => ?_) fun noPart => ?_
    · cases eq_of_beq isEscape
      have head : before.peek? = some '\\' := congrArg List.head? unread
      refine .bind (.of_advances (readNameEscape_repeats _ unread) ?_) fun _ _ _ => .pure _
      exact readNameEscape_advances head _
    · exact .bind (.skip unread (solid.ne_return goes)) fun _ _ _ => .pure _
    · exact absurd goes (by simp [noEscape, noPart])
  · rw [and_self]
    cases other with
    | none => rfl
    | some c =>
        have noPart := ends c rfl
        rw [Bool.or_eq_false_iff] at noPart
        simp only [noPart]
        rfl

theorem readName_repeats (start start' : Position) (before : Cursor) :
    Repeats .apart (readName start) (readName start') before := by
  have text : Repeats .apart readNameText readNameText before := by
    rw [readNameText_eq]
    exact .bind (.loop nameRound_lively nameRound_repeats _) fun _ _ _ => .pure _
  refine .bind text fun result middle _ => ?_
  rcases result with ⟨name, escaped⟩
  dsimp only
  split
  · exact .ite (fun _ => .bind .fail fun _ _ _ => .pure _) fun _ => .pure _
  · exact .pure _

end Reader

end ExprScript
