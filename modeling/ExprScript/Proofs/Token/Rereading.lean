import ExprScript.Proofs.Token.Numeral

/-! # Reading a written text

What a reader takes from a text depends only on the characters in front of it. A
name, a string, a piece of a template or a regular expression that was read once
is read again in the same way from the text that it is written as.
-/

namespace ExprScript

theorem takeBytes_append (passed rest : List Char) :
    takeBytes (byteSize passed) (passed ++ rest) = passed := by
  induction passed with
  | nil =>
      cases rest with
      | nil => rfl
      | cons c rest =>
          have positive := c.utf8Size_pos
          simp only [byteSize_nil, List.nil_append, takeBytes]
          rw [if_neg (by omega)]
  | cons c passed induction =>
      simp only [byteSize_cons, List.cons_append, takeBytes]
      rw [if_pos (by omega), Nat.add_sub_cancel_left, induction]

theorem Cursor.Leads.textUntil {start stop : Cursor} (leads : start.Leads stop)
    {passed : List Char} (text : start.rest = passed ++ stop.rest) :
    start.textUntil stop = String.ofList passed := by
  rcases leads with ⟨passed', text', offset⟩
  have equal : passed' = passed := List.append_cancel_right (text'.symm.trans text)
  rw [Cursor.textUntil, offset, Nat.add_sub_cancel_left, text', takeBytes_append, equal]

namespace Reader

variable {α β : Type} {text middle rest : List Char}

def Takes (reader : Reader α) (text : List Char) (result : α) (rest : List Char) : Prop :=
  ∀ cursor : Cursor, cursor.rest = text → Achieves reader cursor fun found after =>
    found = result ∧ after.rest = rest ∧ cursor.Leads after

namespace Takes

theorem pure (result : α) : Takes (Pure.pure result) text result text := by
  intro cursor equal
  exact .pure ⟨rfl, equal, .refl cursor⟩

theorem bind {reader : Reader α} {next : α → Reader β} {value : α} {result : β}
    (first : Takes reader text value middle) (second : Takes (next value) middle result rest) :
    Takes (reader >>= next) text result rest := by
  intro cursor equal
  apply Achieves.bind
  apply (first cursor equal).mono
  rintro found between ⟨rfl, remains, leads⟩
  apply (second between remains).mono
  rintro result after ⟨same, remains, leads'⟩
  exact ⟨same, remains, leads.trans leads'⟩

theorem peek? : Takes peek? text text.head? text := by
  intro cursor equal
  exact .get (.pure ⟨congrArg List.head? equal, equal, .refl cursor⟩)

theorem peekSecond? : Takes peekSecond? text text[1]? text := by
  rintro cursor rfl
  exact .get (.pure ⟨rfl, rfl, .refl cursor⟩)

theorem position {next : Position → Reader β} {result : β}
    (takes : ∀ place, Takes (next place) text result rest) :
    Takes (position >>= next) text result rest := by
  intro cursor equal
  exact .bind (.get (.pure (takes cursor.position cursor equal)))

theorem advance {c : Char} (single : c ≠ '\r') (cursor : Cursor) (equal : cursor.rest = c :: rest) :
    cursor.advance.rest = rest := by
  unfold Cursor.advance
  rw [equal]
  split
  · next wrong => cases wrong
  · next wrong =>
      cases wrong
      exact absurd rfl single
  · next same =>
      cases same
      split <;> rfl

theorem skip {c : Char} (single : c ≠ '\r') : Takes skip (c :: rest) () rest := by
  intro cursor equal
  exact ⟨(), cursor.advance, rfl, rfl, advance single cursor equal, Cursor.leads_advance cursor⟩

theorem advance? {c : Char} (single : c ≠ '\r') : Takes advance? (c :: rest) (some c) rest := by
  intro cursor equal
  apply Achieves.get
  apply Achieves.set
  exact .pure ⟨congrArg List.head? equal, advance single cursor equal,
    Cursor.leads_advance cursor⟩

theorem iteTrue {condition : Prop} [Decidable condition] {first second : Reader β} {result : β}
    (holds : condition) (takes : Takes first text result rest) :
    Takes (if condition then first else second) text result rest := by
  rwa [if_pos holds]

theorem iteFalse {condition : Prop} [Decidable condition] {first second : Reader β} {result : β}
    (fails : ¬ condition) (takes : Takes second text result rest) :
    Takes (if condition then first else second) text result rest := by
  rwa [if_neg fails]

theorem capture {reader : Reader α} {result : α} {passed : List Char}
    (takes : Takes reader (passed ++ rest) result rest) :
    Takes (capture reader) (passed ++ rest) (result, String.ofList passed) rest := by
  intro cursor equal
  apply Achieves.get
  apply Achieves.bind
  apply (takes cursor equal).mono
  rintro found after ⟨rfl, remains, leads⟩
  apply Achieves.get
  refine .pure ⟨?_, remains, leads⟩
  rw [leads.textUntil (equal.trans (congrArg _ remains.symm))]

end Takes

/-! ## Loops -/

inductive Turns (round : α → Reader (Round α β)) : α → List Char → α → List Char → Prop
  | none {value : α} {text : List Char} : Turns round value text value text
  | one {value next last : α} {text middle rest : List Char}
      (takes : Takes (round value) text (.again next) middle)
      (shorter : middle.length < text.length)
      (later : Turns round next middle last rest) : Turns round value text last rest

theorem Turns.rounds {round : α → Reader (Round α β)} {value last : α}
    (turns : Turns round value text last rest) (cursor : Cursor) (equal : cursor.rest = text) :
    ∃ count after, Rounds round count value cursor last after ∧ after.rest = rest ∧
      cursor.Leads after ∧ count + rest.length ≤ text.length := by
  induction turns generalizing cursor with
  | none => exact ⟨0, cursor, .none, equal, .refl cursor, by omega⟩
  | one takes shorter _ induction =>
      rcases takes cursor equal with ⟨_, between, run, rfl, remains, leads⟩
      rcases induction between remains with ⟨count, after, rounds, remains', leads', bound⟩
      exact ⟨count + 1, after, .one run rounds, remains', leads.trans leads', by omega⟩

/-- A loop that takes its turns and is done then. -/
theorem Turns.loop {round : α → Reader (Round α β)} {value last : α}
    (turns : Turns round value text last middle) {cursor : Cursor} (equal : cursor.rest = text)
    {post : β → Cursor → Prop}
    (done : ∀ between : Cursor, between.rest = middle → cursor.Leads between →
      Achieves (round last) between fun outcome after =>
        outcome.Holds (fun _ => False) (post · after)) :
    Achieves (loop round value) cursor post := by
  rcases turns.rounds cursor equal with ⟨count, between, rounds, remains, leads, bound⟩
  apply Achieves.get
  apply rounds.repeatWithin
  · rw [equal]
    omega
  · exact done between remains leads

/-- A loop that keeps an invariant while it goes on, each time with a shorter
text, comes to a text where it is done. -/
theorem Turns.reach {round : α → Reader (Round α β)} {value : α}
    (reads final : α → List Char → Prop)
    (step : ∀ value text, reads value text → final value text ∨
      ∃ next middle, Takes (round value) text (.again next) middle ∧
        middle.length < text.length ∧ reads next middle)
    (holds : reads value text) :
    ∃ last middle, Turns round value text last middle ∧ final last middle := by
  have turns : ∀ (size : Nat) (value : α) (text : List Char), text.length ≤ size →
      reads value text → ∃ last middle, Turns round value text last middle ∧
        final last middle := by
    intro size
    induction size with
    | zero =>
        intro value text short holds
        rcases step value text holds with done | ⟨next, middle, -, shorter, -⟩
        · exact ⟨value, text, .none, done⟩
        · omega
    | succ size induction =>
        intro value text short holds
        rcases step value text holds with done | ⟨next, middle, takes, shorter, holds⟩
        · exact ⟨value, text, .none, done⟩
        · rcases induction next middle (by omega) holds with ⟨last, rest, turns, done⟩
          exact ⟨last, rest, .one takes shorter turns, done⟩
  exact turns text.length value text (Nat.le_refl _) holds

theorem loop_achieves {round : α → Reader (Round α β)} {value : α} {cursor : Cursor}
    {post : β → Cursor → Prop} (reads final : α → List Char → Prop)
    (step : ∀ value text, reads value text → final value text ∨
      ∃ next middle, Takes (round value) text (.again next) middle ∧
        middle.length < text.length ∧ reads next middle)
    (holds : reads value cursor.rest)
    (done : ∀ last between, final last between.rest → cursor.Leads between →
      Achieves (round last) between fun outcome after =>
        outcome.Holds (fun _ => False) (post · after)) :
    Achieves (loop round value) cursor post := by
  rcases Turns.reach reads final step holds with ⟨last, middle, turns, reached⟩
  apply turns.loop rfl
  rintro between rfl leads
  exact done last between reached leads

theorem Takes.loopWith {round : α → Reader (Round α β)} {value : α} {result : β}
    (reads : α → List Char → Prop)
    (step : ∀ value text, reads value text → Takes (round value) text (.done result) rest ∨
      ∃ next middle, Takes (round value) text (.again next) middle ∧
        middle.length < text.length ∧ reads next middle)
    (holds : reads value text) : Takes (Reader.loop round value) text result rest := by
  rintro cursor rfl
  apply loop_achieves reads _ step holds
  intro last between takes leads
  apply (takes between rfl).mono
  rintro outcome after ⟨rfl, remains, leads'⟩
  exact ⟨rfl, remains, leads.trans leads'⟩

def Stops (goesOn : Char → Bool) (rest : List Char) : Prop :=
  ∀ c, rest.head? = some c → goesOn c = false

theorem skipWhile_takes {drop : Char → Bool} {passed : List Char}
    (all : ∀ c ∈ passed, drop c = true ∧ c ≠ '\r') (stops : Stops drop rest) :
    Takes (skipWhile drop) (passed ++ rest) () rest := by
  apply Takes.loopWith fun _ text => ∃ passed, text = passed ++ rest ∧
    ∀ c ∈ passed, drop c = true ∧ c ≠ '\r'
  · rintro - text ⟨passed, rfl, all⟩
    cases passed with
    | nil =>
        left
        apply Takes.bind Takes.peek?
        cases rest with
        | nil => exact .pure _
        | cons c rest => exact .iteFalse (by simp [stops c rfl]) (.pure _)
    | cons c passed =>
        right
        rcases all c (List.mem_cons_self ..) with ⟨dropped, single⟩
        refine ⟨(), passed ++ rest, ?_, by simp, passed, rfl, ?_⟩
        · apply Takes.bind Takes.peek?
          apply Takes.iteTrue dropped
          exact (Takes.skip single).bind (.pure _)
        · exact fun c member => all c (List.mem_cons_of_mem _ member)
  · exact ⟨passed, rfl, all⟩

/-! ## Names -/

def NameText : List Char → Prop
  | [] => False
  | c :: rest => Text.isNameStart c = true ∧ ∀ d ∈ rest, Text.isNamePart d = true

def kindOfWord (name : String) : TokenKind :=
  match Keyword.ofWord? name with
  | some word => .keyword word
  | none => .identifier

theorem isNamePart_of_isNameStart {c : Char} (starts : Text.isNameStart c = true) :
    Text.isNamePart c = true := by
  simp only [Text.isNameStart, Text.isNamePart, Bool.or_eq_true] at *
  rcases starts with (dollar | underscore) | letter
  · simp [dollar]
  · simp [underscore]
  · simp [letter]

theorem NameText.snoc {name : List Char} {c : Char} (text : name = [] ∨ NameText name)
    (fits : fitsName name.isEmpty c = true) : NameText (name ++ [c]) := by
  cases name with
  | nil => exact ⟨fits, by simp⟩
  | cons first name =>
      have text := text.resolve_left (by simp)
      refine ⟨text.1, ?_⟩
      intro d member
      rcases List.mem_append.mp member with member | member
      · exact text.2 d member
      · cases List.mem_singleton.mp member
        exact fits

theorem peek?_bind {next : Option Char → Reader β} {before : Cursor}
    {post : β → Cursor → Prop} (ensures : Ensures (next before.rest.head?) before post) :
    Ensures (peek? >>= next) before post :=
  .bind (.get (.pure ensures))

theorem skip_advance {α : Type} {next : Unit → Reader α} {before : Cursor}
    {post : α → Cursor → Prop} (ensures : Ensures (next ()) before.advance post) :
    Ensures (skip >>= next) before post :=
  .modify ensures

theorem skip_bind {α : Type} {next : Unit → Reader α} {before : Cursor} {c : Char}
    {rest : List Char} {post : α → Cursor → Prop} (text : before.rest = c :: rest)
    (single : c ≠ '\r') (ensures : ∀ after, after.rest = rest → Ensures (next ()) after post) :
    Ensures (skip >>= next) before post :=
  skip_advance (ensures before.advance (Takes.advance single before text))

theorem readNameEscape_ensures (atStart : Bool) (before : Cursor) :
    Ensures (readNameEscape atStart) before fun c _ => fitsName atStart c = true := by
  refine .bindAny fun _ _ => .bindAny fun _ _ => .bindAny fun _ _ => ?_
  refine .ite (fun _ => .bind (.throw _)) fun _ => .bindAny fun code _ => ?_
  refine .ite (fun fits => .pure ?_) fun _ => .throw _
  simp only [Bool.and_eq_true] at fits
  exact fits.2

theorem readNameText_ensures (before : Cursor) :
    Ensures readNameText before fun result after =>
      NameText result.1.toList ∨ result.1.toList = [] ∧ before = after ∧
        ∀ c, before.rest.head? = some c → Text.isNameStart c = false ∧ c ≠ '\\' := by
  apply Ensures.bind
  let text := fun (state : List Char × Bool) (cursor : Cursor) =>
    NameText state.1.reverse ∨ state.1 = [] ∧ before = cursor
  apply Ensures.get
  refine .repeatWithin text ?_ (fun _ => .bindAny fun _ _ => .throw _) _ (.inr ⟨rfl, rfl⟩)
  rintro ⟨reversed, escaped⟩ cursor holds
  have goesOn : ∀ c flag after, fitsName reversed.isEmpty c = true →
      text (c :: reversed, flag) after := by
    intro c flag after fits
    left
    rw [List.reverse_cons]
    apply NameText.snoc
    · exact holds.symm.imp (fun isEmpty => List.reverse_eq_nil_iff.mpr isEmpty.1) id
    · rwa [List.isEmpty_reverse]
  have stops : (reversed = [] → ∀ c, cursor.rest.head? = some c →
      Text.isNameStart c = false ∧ c ≠ '\\') →
      NameText (String.ofList reversed.reverse).toList ∨
        (String.ofList reversed.reverse).toList = [] ∧ before = cursor ∧
          ∀ c, before.rest.head? = some c → Text.isNameStart c = false ∧ c ≠ '\\' := by
    intro noStart
    rw [String.toList_ofList]
    rcases holds with text | ⟨isEmpty, rfl⟩
    · exact .inl text
    · exact .inr ⟨List.reverse_eq_nil_iff.mpr isEmpty, rfl, noStart isEmpty⟩
  apply peek?_bind
  cases head : cursor.rest.head? with
  | none =>
      refine .pure (.pure (stops ?_))
      rw [head]
      exact fun _ _ => nofun
  | some c =>
      refine .ite (fun _ => ?_) fun notEscape => .ite (fun fits => ?_) fun notFits => .pure (.pure ?_)
      · refine .bind ((readNameEscape_ensures reversed.isEmpty cursor).mono ?_)
        intro character after fits
        exact .pure (goesOn character true after fits)
      · exact .bindAny fun _ after => .pure (goesOn c escaped after fits)
      · apply stops
        rintro rfl d equal
        rw [head] at equal
        cases equal
        exact ⟨by simpa [fitsName] using notFits, by simpa using notEscape⟩

theorem readName_ensures (start : Position) (before : Cursor) {first : Char}
    (head : before.rest.head? = some first)
    (starts : Text.isNameStart first = true ∨ first = '\\') :
    Ensures (readName start) before fun (kind, name) _ => NameText name.toList ∧
      kind = kindOfWord name := by
  refine .bind ((readNameText_ensures before).mono ?_)
  rintro ⟨name, escaped⟩ after text
  have text : NameText name.toList := by
    apply text.resolve_right
    rintro ⟨-, -, noStart⟩
    rcases noStart first head with ⟨notStart, notEscape⟩
    rcases starts with starts | escape
    · rw [notStart] at starts
      cases starts
    · exact notEscape escape
  dsimp only
  split
  · next word found =>
      refine .ite (fun _ => .bind (.throw _)) fun _ => .pure ⟨text, ?_⟩
      rw [kindOfWord, found]
  · next notFound =>
      refine .pure ⟨text, ?_⟩
      rw [kindOfWord, notFound]

theorem readNameText_takes {name : List Char} (text : NameText name)
    (stops : Stops (fun c => Text.isNamePart c || c == '\\') rest) :
    Takes readNameText (name ++ rest) (String.ofList name, false) rest := by
  refine Takes.bind (?_ : Takes _ _ (name.reverse, false) rest) ?_
  · apply Takes.loopWith fun state text => state.2 = false ∧ ∃ others,
      text = others ++ rest ∧ state.1.reverse ++ others = name
    · rintro ⟨reversed, escaped⟩ text' ⟨rfl, others, rfl, whole⟩
      cases others with
      | nil =>
          left
          have some : reversed ≠ [] := by
            rintro rfl
            rw [← whole] at text
            exact text
          rw [← whole, List.append_nil, List.reverse_reverse]
          apply Takes.bind Takes.peek?
          cases rest with
          | nil => exact .pure _
          | cons c rest =>
              have stop := stops c rfl
              simp only [Bool.or_eq_false_iff] at stop
              apply Takes.iteFalse (by simp [stop.2])
              apply Takes.iteFalse _ (.pure _)
              simp [fitsName, some, stop.1]
      | cons c others =>
          right
          have fits : fitsName reversed.isEmpty c = true := by
            rw [← whole] at text
            rw [← List.isEmpty_reverse]
            cases front : reversed.reverse with
            | nil =>
                rw [front] at text
                exact text.1
            | cons first front' =>
                rw [front] at text
                exact text.2 c (by simp)
          have part : Text.isNamePart c = true := by
            cases reversed with
            | nil => exact isNamePart_of_isNameStart fits
            | cons => exact fits
          have notEscape : c ≠ '\\' := by
            rintro rfl
            exact absurd part (by decide)
          have single : c ≠ '\r' := by
            rintro rfl
            exact absurd part (by decide)
          refine ⟨(c :: reversed, false), others ++ rest, ?_, by simp, rfl, others, rfl, ?_⟩
          · apply Takes.bind Takes.peek?
            apply Takes.iteFalse (by simpa using notEscape)
            apply Takes.iteTrue fits
            exact (Takes.skip single).bind (.pure _)
          · simpa using whole
    · exact ⟨rfl, name, rfl, rfl⟩
  · dsimp only
    rw [List.reverse_reverse]
    exact .pure _

theorem readName_takes {name : String} (text : NameText name.toList)
    (stops : Stops (fun c => Text.isNamePart c || c == '\\') rest) (start : Position) :
    Takes (readName start) (name.toList ++ rest) (kindOfWord name, name) rest := by
  apply (readNameText_takes text stops).bind
  dsimp only
  rw [String.ofList_toList, kindOfWord]
  cases Keyword.ofWord? name with
  | some word => exact Takes.iteFalse (by simp) (.pure _)
  | none => exact .pure _

end Reader

namespace Scanner

open Reader

/-! ## Spaces -/

theorem loop_again {α β : Type} {round : α → Reader (Round α β)} {value next : α}
    {cursor after : Cursor} (run : round value cursor = .ok (.again next) after)
    (length : cursor.rest.length = after.rest.length + 1) :
    loop round value cursor = loop round next after := by
  simp only [loop, bind, EStateM.bind, get, getThe, MonadStateOf.get, EStateM.get, length]
  rw [repeatWithin]
  simp only [bind, EStateM.bind, run]

theorem skipTrivia_space {cursor : Cursor} {text : List Char}
    (space : cursor.rest = ' ' :: text) : skipTrivia cursor = skipTrivia cursor.advance := by
  have rest : cursor.advance.rest = text := Takes.advance (by decide) cursor space
  apply loop_again
  · simp only [bind, EStateM.bind, peek?, get, getThe, MonadStateOf.get, EStateM.get, pure,
      EStateM.pure, Cursor.peek?, space]
    rfl
  · rw [space, rest]
    rfl

theorem skipTrivia_spaces {cursor : Cursor} {count : Nat}
    (spaces : cursor.rest = List.replicate count ' ') :
    ∃ after, skipTrivia cursor = .ok false after ∧ after.rest = [] := by
  induction count generalizing cursor with
  | zero =>
      have noTrivia : NoTrivia cursor.rest := by
        rw [spaces]
        exact nofun
      exact ⟨cursor, skipTrivia_stays noTrivia, spaces⟩
  | succ count induction =>
      rw [List.replicate_succ] at spaces
      rw [skipTrivia_space spaces]
      exact induction (Takes.advance (by decide) cursor spaces)

/-! ## Regular expressions -/

/-- The body of a regular expression, from inside or outside of brackets on. -/
inductive RegExpBody : Bool → List Char → Prop
  | nil : RegExpBody false []
  | opens {inClass : Bool} {body : List Char} (later : RegExpBody true body) :
      RegExpBody inClass ('[' :: body)
  | closes {inClass : Bool} {body : List Char} (later : RegExpBody false body) :
      RegExpBody inClass (']' :: body)
  | escape {inClass : Bool} {c : Char} {body : List Char}
      (inLine : Text.isLineTerminator c = false) (later : RegExpBody inClass body) :
      RegExpBody inClass ('\\' :: c :: body)
  | plain {inClass : Bool} {c : Char} {body : List Char}
      (inLine : Text.isLineTerminator c = false) (noBracket : c ≠ '[' ∧ c ≠ ']')
      (noSlash : c = '/' → inClass = true) (noEscape : c ≠ '\\')
      (later : RegExpBody inClass body) : RegExpBody inClass (c :: body)

theorem ne_return_of_inLine {c : Char} (inLine : Text.isLineTerminator c = false) : c ≠ '\r' := by
  rintro rfl
  exact absurd inLine (by decide)

theorem readRegExpBody_ensures (start : Position) (before : Cursor) :
    Ensures (readRegExpBody start) before fun _ after => ∃ body tail,
      before.rest = body ++ '/' :: tail ∧ after.rest = '/' :: tail ∧ RegExpBody false body := by
  -- What was read so far may be put before every body that may follow it.
  let reads := fun (inClass : Bool) (cursor : Cursor) => ∃ passed,
    before.rest = passed ++ cursor.rest ∧
      ∀ body, RegExpBody inClass body → RegExpBody false (passed ++ body)
  apply Ensures.get
  refine .repeatWithin reads ?_ (fun _ => .bindAny fun _ _ => .throw _) _
    ⟨[], rfl, fun _ body => body⟩
  rintro inClass cursor ⟨passed, text, goesOn⟩
  apply peek?_bind
  cases unread : cursor.rest with
  | nil => exact .throw _
  | cons c tail =>
      rw [unread] at text
      have step : ∀ (chunk rest : List Char) (inClass' : Bool) (after : Cursor),
          c :: tail = chunk ++ rest → after.rest = rest →
          (∀ body, RegExpBody inClass' body → RegExpBody inClass (chunk ++ body)) →
          reads inClass' after := by
        intro chunk rest inClass' after parts remains later
        refine ⟨passed ++ chunk, ?_, ?_⟩
        · rw [text, parts, remains, List.append_assoc]
        · intro body holds
          rw [List.append_assoc]
          exact goesOn _ (later body holds)
      refine .ite (fun _ => .throw _) fun inLine => ?_
      simp only [Bool.not_eq_true] at inLine
      have single := ne_return_of_inLine inLine
      refine .ite (fun isOpen => ?_) fun notOpen => ?_
      · cases eq_of_beq isOpen
        refine skip_bind unread single fun after remains => .pure ?_
        exact step ['['] tail true after rfl remains fun _ => .opens
      refine .ite (fun isClose => ?_) fun notClose => ?_
      · cases eq_of_beq isClose
        refine skip_bind unread single fun after remains => .pure ?_
        exact step [']'] tail false after rfl remains fun _ => .closes
      refine .ite (fun isSlash => .pure ?_) fun notSlash => ?_
      · simp only [Bool.and_eq_true, beq_iff_eq, Bool.not_eq_true'] at isSlash
        rcases isSlash with ⟨rfl, rfl⟩
        exact ⟨passed, tail, text, unread, by simpa using goesOn [] .nil⟩
      refine .ite (fun isEscape => ?_) fun notEscape => ?_
      · cases eq_of_beq isEscape
        refine skip_bind unread single fun between remains => ?_
        apply peek?_bind
        rw [remains]
        cases tail with
        | nil => exact .throw _
        | cons d tail =>
            refine .ite (fun _ => .bind (.throw _)) fun inLine => ?_
            simp only [Bool.not_eq_true] at inLine
            refine skip_bind remains (ne_return_of_inLine inLine) fun after remains => .pure ?_
            exact step ['\\', d] tail inClass after rfl remains fun _ => .escape inLine
      · refine skip_bind unread single fun after remains => .pure ?_
        simp only [beq_iff_eq] at notOpen notClose notEscape
        refine step [c] tail inClass after rfl remains fun _ => ?_
        refine .plain inLine ⟨notOpen, notClose⟩ (fun slash => ?_) notEscape
        simpa [slash] using notSlash

theorem readRegExpBody_takes {body rest : List Char} (holds : RegExpBody false body)
    (start : Position) :
    Takes (readRegExpBody start) (body ++ '/' :: rest) () ('/' :: rest) := by
  apply Takes.loopWith fun inClass text => ∃ body, text = body ++ '/' :: rest ∧
    RegExpBody inClass body
  · rintro inClass text ⟨body, rfl, holds⟩
    cases holds with
    | nil =>
        left
        apply Takes.bind Takes.peek?
        exact .pure _
    | @opens _ body later =>
        right
        refine ⟨true, body ++ '/' :: rest, ?_, by simp, body, rfl, later⟩
        apply Takes.bind Takes.peek?
        exact (Takes.skip (by decide)).bind (.pure _)
    | @closes _ body later =>
        right
        refine ⟨false, body ++ '/' :: rest, ?_, by simp, body, rfl, later⟩
        apply Takes.bind Takes.peek?
        exact (Takes.skip (by decide)).bind (.pure _)
    | @escape _ c body inLine later =>
        right
        have shorter : (body ++ '/' :: rest).length < ('\\' :: c :: body ++ '/' :: rest).length := by
          simp only [List.length_append, List.length_cons]
          omega
        refine ⟨inClass, body ++ '/' :: rest, ?_, shorter, body, rfl, later⟩
        apply Takes.bind Takes.peek?
        apply (Takes.skip (by decide)).bind
        apply Takes.bind Takes.peek?
        apply Takes.iteFalse (by simp [inLine])
        exact (Takes.skip (ne_return_of_inLine inLine)).bind (.pure _)
    | @plain _ c body inLine noBracket noSlash noEscape later =>
        right
        refine ⟨inClass, body ++ '/' :: rest, ?_, by simp, body, rfl, later⟩
        apply Takes.bind Takes.peek?
        apply Takes.iteFalse (by simp [inLine])
        apply Takes.iteFalse (by simpa using noBracket.1)
        apply Takes.iteFalse (by simpa using noBracket.2)
        apply Takes.iteFalse (by simpa using noSlash)
        apply Takes.iteFalse (by simpa using noEscape)
        exact (Takes.skip (ne_return_of_inLine inLine)).bind (.pure _)
  · exact ⟨body, rfl, holds⟩

structure RegExpText (pattern flags : List Char) : Prop where
  body : RegExpBody false pattern
  notEmpty : pattern ≠ []
  noComment : pattern.head? ≠ some '*'
  flags : ∀ c ∈ flags, Text.isNamePart c = true ∧ c ≠ '\r'

theorem readRegExp_takes {pattern flags rest : List Char} (text : RegExpText pattern flags)
    (stops : Stops Text.isNamePart rest) (start : Position) :
    Takes (readRegExp start) ('/' :: (pattern ++ '/' :: (flags ++ rest)))
      (String.ofList pattern, String.ofList flags) rest := by
  apply (Takes.skip (by decide)).bind
  apply (Takes.capture (readRegExpBody_takes text.body start)).bind
  apply (Takes.skip (by decide)).bind
  apply (Takes.capture (skipWhile_takes text.flags stops)).bind
  exact .pure _

theorem readRegExp_ensures (start : Position) (before : Cursor) {tail : List Char}
    (slash : before.rest = '/' :: tail) :
    Ensures (readRegExp start) before fun result _ => ∃ others,
      before.rest = '/' :: (result.1.toList ++ '/' :: others) ∧
        RegExpBody false result.1.toList := by
  refine skip_bind slash (by decide) fun opened remains => ?_
  apply Ensures.bind
  apply Ensures.get
  refine .bind (((readRegExpBody_ensures start opened).both
    ((readRegExpBody_forward start).ensures opened)).mono ?_)
  rintro _ middle ⟨⟨body, others, parts, unread, form⟩, leads⟩
  apply Ensures.get
  refine .pure (.bindAny fun _ _ => .bindAny fun _ _ => .pure ?_)
  rw [leads.textUntil (by rw [parts, unread]), String.toList_ofList]
  refine ⟨others, ?_, form⟩
  rw [slash, ← remains, parts]

end Scanner

end ExprScript
