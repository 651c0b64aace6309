import ExprScript.Proofs.Grammar.State
import ExprScript.Proofs.Span.Outline

/-! # The parser in the source

The scanner stays at places of the source, and the parser knows where the next token
starts and where the last one has stopped. What it has read lies between the two.
-/

namespace ExprScript

/-! ## The scanner -/

/-- The scanner is at a place of the source. -/
structure Scanner.Located (source : List Char) (scanner : Scanner) : Prop where
  source_eq : scanner.source = source
  cursor : scanner.cursor.Located source

/-- The token lies in the source; only the one for the end of the input takes no room. -/
structure Token.Located (source : List Char) (token : Token) : Prop where
  start : ∃ cursor : Cursor, cursor.Located source ∧ token.span.start = cursor.position ∧
    token.lineStart = cursor.lineStart
  stop : token.span.stop.Marks source
  start_le_stop : token.span.start.offset ≤ token.span.stop.offset
  start_lt_stop : token.kind ≠ .endOfInput → token.span.start.offset < token.span.stop.offset

theorem Token.Located.marks {source : List Char} {token : Token} (located : token.Located source) :
    token.span.start.Marks source := by
  rcases located.start with ⟨cursor, located, start, -⟩
  rw [start]
  exact located.marks

theorem Token.Located.rejects {source : List Char} {token : Token}
    (located : token.Located source) : token.unexpected.Rejects source := by
  refine ⟨located.marks, ?_⟩
  unfold Error.kind Token.unexpected Token.unexpectedCause
  dsimp only
  split
  · rfl
  · rfl
  · rfl
  · rfl
  · split <;> rfl

namespace Scanner

variable {source : List Char} {α β : Type}

/-- From a place of the source the scanner comes to another one, also where it fails, which it
does with a syntax error at a place of the source. -/
def Tracks (source : List Char) (action : Scan α) : Prop :=
  Upholds (Error.Rejects source) (Scanner.Located source) action

namespace Tracks

theorem pure (result : α) : Tracks source (Pure.pure result) := Upholds.pure result

theorem fail (error : Error) (marks : error.Marks source)
    (isSyntax : error.kind = .syntaxError) :
    Tracks source (MonadExcept.throw error : Scan α) :=
  Upholds.throw ⟨marks, isSyntax⟩

theorem bind {action : Scan α} {next : α → Scan β} (tracks : Tracks source action)
    (rest : ∀ value, Tracks source (next value)) : Tracks source (action >>= next) :=
  Upholds.bind tracks rest

theorem get {next : Scanner → Scan α}
    (tracks : ∀ scanner : Scanner, scanner.Located source → Tracks source (next scanner)) :
    Tracks source (MonadState.get >>= next) :=
  Upholds.get tracks

theorem set {scanner : Scanner} (located : scanner.Located source) :
    Tracks source (MonadStateOf.set scanner) :=
  fun _ _ => located

theorem ite {condition : Prop} [Decidable condition] {first second : Scan α}
    (whenTrue : Tracks source first) (whenFalse : Tracks source second) :
    Tracks source (if condition then first else second) :=
  Upholds.ite whenTrue whenFalse

theorem read {reader : Reader α} (tracks : Reader.Tracks source reader) :
    Tracks source (read reader) := by
  intro before located
  have outcome := tracks before.cursor located.cursor
  simp only [Scanner.read, EStateM.run]
  cases run : reader before.cursor with
  | ok result cursor =>
      rw [run] at outcome
      exact ⟨located.source_eq, outcome⟩
  | error error cursor =>
      rw [run] at outcome
      exact ⟨outcome.1, located.source_eq, outcome.2⟩

theorem modify {change : Scanner → Scanner}
    (same : ∀ before, (change before).source = before.source)
    (cursor : ∀ before, (change before).cursor = before.cursor) :
    Tracks source (modifyGet fun scanner => (⟨⟩, change scanner) : Scan PUnit) := by
  intro before located
  refine ⟨(same before).trans located.source_eq, ?_⟩
  rw [cursor]
  exact located.cursor

end Tracks

variable {start : Position}

theorem noteBrace_tracks (mark : Punctuator) : Tracks source (noteBrace mark) := by
  apply Tracks.modify
  · intro before
    split <;> rfl
  · intro before
    split <;> rfl

theorem scanPunctuator_tracks (marks : start.Marks source) :
    Tracks source (scanPunctuator start) := by
  apply Tracks.get
  intro _ _
  dsimp only
  split
  · exact .bind (.read (Reader.skipMany_tracks _)) fun _ =>
      .bind (noteBrace_tracks _) fun _ => .pure _
  · exact .fail _ marks rfl

theorem scanTemplate_tracks (marks : start.Marks source) (withHole withoutHole : TokenKind) :
    Tracks source (scanTemplate start withHole withoutHole) := by
  apply Tracks.bind (.read (.bind .skip fun _ => Reader.readTemplatePiece_tracks marks))
  intro piece
  dsimp only
  split
  · exact .bind (.modify (fun _ => rfl) fun _ => rfl) fun _ => .pure _
  · exact .pure _

theorem scanLexeme_tracks (marks : start.Marks source) (first : Char) :
    Tracks source (scanLexeme start first) := by
  apply Tracks.get
  intro scanner located
  apply Tracks.ite
  · exact .bind (.read (Reader.readString_tracks marks)) fun _ => .pure _
  · apply Tracks.ite
    · exact .bind (scanTemplate_tracks marks _ _) fun _ => .pure _
    · apply Tracks.ite
      · exact .bind (.set ⟨located.source_eq, located.cursor⟩) fun _ =>
          .bind (scanTemplate_tracks marks _ _) fun _ => .pure _
      · apply Tracks.ite
        · exact .bind (.read (Reader.readNumeral_tracks marks)) fun _ => .pure _
        · apply Tracks.ite
          · exact .bind (.read (Reader.readName_tracks marks)) fun _ => .pure _
          · exact .bind (scanPunctuator_tracks marks) fun _ => .pure _

theorem next_located {before : Scanner} (located : before.Located source) :
    Yields (Error.Rejects source) next before fun token after => after.Located source ∧
      token.Located source ∧ before.cursor.position.offset ≤ token.span.start.offset ∧
      token.span.stop.offset ≤ after.cursor.position.offset := by
  have yields : Yields (Error.Rejects source) next before fun token after =>
      after.Located source ∧ token.span.stop = after.cursor.position ∧
        ∃ cursor : Cursor, cursor.Located source ∧ token.span.start = cursor.position ∧
          token.lineStart = cursor.lineStart := by
    apply Yields.bind
    apply ((Tracks.read Reader.skipTrivia_tracks).yields located).mono
    intro newline middle located
    have marks := located.cursor.marks
    apply Yields.get
    dsimp only
    split
    · exact .pure ⟨located, rfl, middle.cursor, located.cursor, rfl, rfl⟩
    · apply Yields.bind
      apply ((scanLexeme_tracks marks _).yields located).mono
      intro lexeme after located'
      apply Yields.get
      apply Yields.ite
      · exact fun _ => .bind (.throw ⟨marks, rfl⟩)
      · exact fun _ => .pure ⟨located', rfl, middle.cursor, located.cursor, rfl, rfl⟩
  apply yields.ensured (next_ensures before)
  intro token after ⟨located, stop, start⟩ ⟨_, first, size, room⟩
  refine ⟨located, ⟨start, stop ▸ located.cursor.marks, ?_, ?_⟩, first, le_of_eq ?_⟩
  · rwa [stop]
  · rwa [stop]
  · rw [stop]

theorem next_spaces (count : Nat) :
    ∃ token scanner, next (.ofString (.ofList (List.replicate count ' '))) = .ok token scanner ∧
      token.kind = .endOfInput ∧ token.span.start = .behind (List.replicate count ' ') ∧
      scanner.cursor.position = .behind (List.replicate count ' ') := by
  generalize start : Scanner.ofString (.ofList (List.replicate count ' ')) = scanner
  have spaces : scanner.cursor.rest = List.replicate count ' ' := by
    rw [← start]
    exact String.toList_ofList
  have located : scanner.cursor.Located (List.replicate count ' ') := by
    have begins := Cursor.Located.ofString (.ofList (List.replicate count ' '))
    rw [String.toList_ofList] at begins
    rwa [← start]
  rcases skipTrivia_spaces spaces with ⟨after, run, rest⟩
  have position : after.position = .behind (List.replicate count ' ') := by
    have placed := Reader.skipTrivia_tracks scanner.cursor located
    rw [run] at placed
    rcases placed with ⟨passed, text, position, -⟩
    rw [rest, List.append_nil] at text
    rw [position, text]
  refine ⟨{ kind := .endOfInput, raw := "", span := { start := after.position, stop := after.position },
            lineStart := after.lineStart, newlineBefore := false },
    { scanner with cursor := after }, ?_, rfl, position, position⟩
  simp only [next, bind, EStateM.bind, read, EStateM.run, run, get, getThe, MonadStateOf.get,
    EStateM.get, Cursor.peek?, rest]
  rfl

theorem cursorAt_located {scanner : Scanner} (located : scanner.Located source) {token : Token}
    (located' : token.Located source) :
    (scanner.cursorAt token.span.start token.lineStart).Located source := by
  rcases located'.start with ⟨cursor, placed, start, lineStart⟩
  have same : scanner.cursorAt token.span.start token.lineStart = cursor := by
    rcases placed with ⟨passed, text, position, -, -⟩
    have rest : dropBytes cursor.position.offset scanner.source = cursor.rest := by
      rw [located.source_eq, text, position]
      exact dropBytes_append passed cursor.rest
    rw [cursorAt, start, lineStart, rest]
  rwa [same]

/-- The regular expression starts where the slash does, and it takes room. -/
theorem rescanRegExp_located {before : Scanner} (located : before.Located source) {slash : Token}
    (located' : slash.Located source) (notEnd : slash.kind ≠ .endOfInput) :
    Yields (Error.Rejects source) (rescanRegExp slash) before fun token after =>
      after.Located source ∧ token.Located source ∧ token.kind = .regExpLiteral ∧
        token.span.start = slash.span.start ∧
        token.span.stop.offset ≤ after.cursor.position.offset := by
  have start := cursorAt_located located located'
  have nonempty : ∃ c, (before.cursorAt slash.span.start slash.lineStart).peek? = some c := by
    rcases start with ⟨passed, text, position, -⟩
    cases rest : (before.cursorAt slash.span.start slash.lineStart).rest with
    | nil =>
        -- The slash would start at the end of the source.
        have size := located'.start_lt_stop notEnd
        have stop := located'.stop.offset_le
        have place : slash.span.start.offset = byteSize passed := congrArg Position.offset position
        rw [text, rest, List.append_nil] at stop
        omega
    | cons c rest' => exact ⟨c, by rw [Cursor.peek?, rest]; rfl⟩
  rcases nonempty with ⟨c, head⟩
  apply Yields.get
  apply Yields.modify
  apply Yields.bind
  have placed : Located source
      { before with cursor := before.cursorAt slash.span.start slash.lineStart } :=
    ⟨located.source_eq, start⟩
  have passes : Advances (read (readRegExp slash.span.start))
      { before with cursor := before.cursorAt slash.span.start slash.lineStart } := by
    apply Advances.read
    apply Reader.Advances.skip head
    apply Reader.Forward.bind (Reader.capture_forward (readRegExpBody_forward _))
    intro _
    apply Reader.Forward.bind .skip
    intro _
    exact .bind (Reader.capture_forward (Reader.skipWhile_forward _)) fun _ => .pure _
  apply ((Tracks.read (readRegExp_tracks located'.marks)).yields placed).ensured passes.ensures
  intro _ after located'' passes
  have size := passes.cursor.offset_lt
  apply Yields.get
  apply Yields.pure
  exact ⟨located'', ⟨⟨_, start, rfl, rfl⟩, located''.cursor.marks, size.le, fun _ => size⟩, rfl,
    rfl, le_rfl⟩

end Scanner

/-! ## The parser -/

namespace ParserState

/-- The state keeps to places of the source: the last token that was used stops before
the next one starts. -/
structure Located (source : List Char) (state : ParserState) : Prop where
  scanner : state.scanner.Located source
  lookahead : state.lookahead.Located source
  reached : state.lookahead.span.stop.offset ≤ state.scanner.cursor.position.offset
  previousEnd : state.previousEnd.Marks source
  behind : state.previousEnd.offset ≤ state.offset
  pending : ∀ position, state.pendingInitializer = some position → position.Marks source
  commas : ∀ comma ∈ state.trailingCommas, comma.1.Marks source ∧ comma.2.Marks source

variable {source : List Char} {before middle after : ParserState}

theorem Located.start (located : before.Located source) :
    before.lookahead.span.start.Marks source :=
  located.lookahead.marks

structure Goes (source : List Char) (before after : ParserState) : Prop where
  located : after.Located source
  offset : before.offset ≤ after.offset
  previousEnd : before.previousEnd.offset ≤ after.previousEnd.offset

theorem Goes.refl (located : before.Located source) : Goes source before before :=
  ⟨located, le_rfl, le_rfl⟩

theorem Goes.trans (left : Goes source before middle) (right : Goes source middle after) :
    Goes source before after :=
  ⟨right.located, left.offset.trans right.offset, left.previousEnd.trans right.previousEnd⟩

structure Uses (source : List Char) (before after : ParserState) : Prop extends
    Goes source before after where
  stop : after.previousEnd = before.lookahead.span.stop

/-- What has been read begins with the next token, and ends with the last one that has been
used since then. -/
structure Reads (source : List Char) (before : ParserState) (outline : Outline)
    (after : ParserState) : Prop where
  goes : Goes source before after
  fills : outline.Fills source before.lookahead.span.start after.previousEnd

/-- Between an offset and the last token that has been used, parts of the source have been
read one behind the other. -/
structure Gathers (source : List Char) (start : Nat) (before after : ParserState)
    (parts : List Outline) : Prop where
  goes : Goes source before after
  between : Outline.Between source start after.previousEnd.offset parts

section

variable {opened : ParserState} {outline : Outline} {expr : Expr} {start : Nat}
  {parts : List Outline}

namespace Reads

theorem offset_lt (reads : Reads source before outline after) :
    before.offset < after.previousEnd.offset :=
  reads.fills.start_lt_stop

theorem start_eq (reads : Reads source before expr.outline after) :
    expr.loc.start = before.lookahead.span.start := by
  rw [← expr.span_outline]
  exact reads.fills.start_eq

theorem marks (reads : Reads source before expr.outline after) : expr.loc.start.Marks source := by
  rw [← expr.span_outline]
  exact reads.fills.fits.start

end Reads

namespace Gathers

theorem nil (located : before.Located source) :
    Gathers source before.previousEnd.offset before before [] :=
  ⟨.refl located, le_rfl⟩

theorem single (reads : Reads source before outline after) (within : start ≤ before.offset) :
    Gathers source start before after [outline] :=
  ⟨reads.goes, reads.fills.between within le_rfl⟩

theorem goesOn (gathers : Gathers source start before middle parts)
    (goes : Goes source middle after) : Gathers source start before after parts :=
  ⟨gathers.goes.trans goes, gathers.between.mono goes.previousEnd⟩

theorem snoc (gathers : Gathers source start before middle parts)
    (goes : Goes source middle opened) (reads : Reads source opened outline after) :
    Gathers source start before after (parts ++ [outline]) := by
  constructor
  · exact gathers.goes.trans (goes.trans reads.goes)
  · apply gathers.between.append
    exact reads.fills.between (goes.previousEnd.trans goes.located.behind) le_rfl

theorem append {others : List Outline} (gathers : Gathers source start before middle parts)
    (gathers' : Gathers source middle.previousEnd.offset middle after others) :
    Gathers source start before after (parts ++ others) :=
  ⟨gathers.goes.trans gathers'.goes, gathers.between.append gathers'.between⟩

theorem earlier (goes : Goes source before opened) (within : start ≤ opened.previousEnd.offset)
    (gathers : Gathers source opened.previousEnd.offset opened after parts) :
    Gathers source start before after parts :=
  ⟨goes.trans gathers.goes, gathers.between.later within⟩

/-- A node from the next token on, with the parts that have been read since then. -/
theorem node (located : before.Located source)
    (gathers : Gathers source before.offset before after parts)
    (size : before.offset < after.previousEnd.offset) :
    Reads source before
      (.node { start := before.lookahead.span.start, stop := after.previousEnd } parts) after :=
  ⟨gathers.goes, .node located.start gathers.goes.located.previousEnd size gathers.between⟩

/-- A node from a token on that opens it. -/
theorem enclosed (located : before.Located source) (uses : Uses source before opened)
    (gathers : Gathers source opened.previousEnd.offset opened after parts)
    (notEnd : before.lookahead.kind ≠ .endOfInput) :
    Reads source before
      (.node { start := before.lookahead.span.start, stop := after.previousEnd } parts) after := by
  have size : before.offset < opened.previousEnd.offset := by
    rw [uses.stop]
    exact located.lookahead.start_lt_stop notEnd
  exact (gathers.earlier uses.toGoes size.le).node located
    (size.trans_le gathers.goes.previousEnd)

end Gathers

structure UsesToken (source : List Char) (before : ParserState) (loc : Span) (after : ParserState) :
    Prop extends Uses source before after where
  reads : Reads source before (.node loc []) after

theorem Uses.token (located : before.Located source)
    (uses : Uses source before after) (notEnd : before.lookahead.kind ≠ .endOfInput) :
    UsesToken source before before.lookahead.span after := by
  have reads := (Gathers.nil uses.located).enclosed located uses notEnd
  rw [uses.stop] at reads
  exact ⟨uses, reads⟩

end

end ParserState

/-! ## Primitive steps -/

namespace Parse

open ParserState

variable {source : List Char} {α β : Type} {before : ParserState} {post : β → ParserState → Prop}

abbrev Traces (source : List Char) (action : Parse α) (before : ParserState)
    (post : α → ParserState → Prop) : Prop :=
  Yields (Error.Rejects source) action before post

theorem fail_traces {post : α → ParserState → Prop} (cause : Cause) {position : Position}
    (marks : position.Marks source) (isSyntax : cause.kind = .syntaxError) :
    Traces source (fail cause position : Parse α) before post :=
  .throw ⟨marks, isSyntax⟩

theorem unexpected_traces {post : α → ParserState → Prop} (located : before.Located source) :
    Traces source (unexpected : Parse α) before post :=
  .bind (.get (.pure (.throw located.lookahead.rejects)))

theorem kind_traces {next : TokenKind → Parse β}
    (traces : Traces source (next before.lookahead.kind) before post) :
    Traces source (kind >>= next) before post :=
  .bind (.get (.pure traces))

theorem start_traces {next : Position → Parse β}
    (traces : Traces source (next before.lookahead.span.start) before post) :
    Traces source (start >>= next) before post :=
  .bind (.get (.pure traces))

theorem lookahead_traces {next : Token → Parse β}
    (traces : Traces source (next before.lookahead) before post) :
    Traces source (lookahead >>= next) before post :=
  .bind (.get (.pure traces))

theorem at?_traces {mark : Punctuator} {next : Bool → Parse β}
    (traces : Traces source (next (before.lookahead.kind == .punctuator mark)) before post) :
    Traces source (at? mark >>= next) before post :=
  .bind (kind_traces (.pure traces))

theorem spanFrom_traces {place : Position} {next : Span → Parse β}
    (traces : Traces source (next { start := place, stop := before.previousEnd }) before post) :
    Traces source (spanFrom place >>= next) before post :=
  .bind (.get (.pure traces))

theorem ofExcept_traces {result : Except Error α} {next : α → Parse β}
    (marks : ErrsWithin source result)
    (traces : ∀ value, result = .ok value → Traces source (next value) before post) :
    Traces source (ofExcept result >>= next) before post := by
  cases result with
  | error error => exact .bind (.throw (marks error rfl))
  | ok value => exact .bind (.pure (traces value rfl))

theorem secondKind_traces {next : TokenKind → Parse β} (located : before.Located source)
    (traces : ∀ kind, Traces source (next kind) before post) :
    Traces source (secondKind >>= next) before post := by
  have yields := Scanner.next_located located.scanner
  apply Yields.bind
  apply Yields.get
  dsimp only [EStateM.run]
  split
  · exact .pure (traces _)
  · next run => exact .throw (yields.error run)

theorem scan_traces {action : Scan α} {post : α → ParserState → Prop}
    (yields : Yields (Error.Rejects source) action before.scanner fun result scanner =>
      post result { before with scanner }) : Traces source (scan action) before post := by
  unfold Yields at yields
  simp only [Traces, Yields, scan, EStateM.run]
  cases run : action before.scanner with
  | ok result scanner =>
      rw [run] at yields
      exact yields
  | error error scanner =>
      rw [run] at yields
      exact yields

theorem advance_traces (located : before.Located source) :
    Traces source advance before fun token after =>
      token = before.lookahead ∧ Uses source before after := by
  apply Yields.bind
  apply scan_traces
  apply (Scanner.next_located located.scanner).mono
  intro next scanner ⟨located', token, first, last⟩
  apply lookahead_traces
  apply Yields.modify
  have room := located.lookahead.start_le_stop
  have reached := located.reached
  have behind := located.behind
  refine .pure ⟨rfl, ⟨⟨located', token, last, located.lookahead.stop, ?_, located.pending,
    located.commas⟩, ?_, ?_⟩, rfl⟩
  · exact reached.trans first
  · exact room.trans (reached.trans first)
  · exact behind.trans room

theorem eat?_traces (mark : Punctuator) (located : before.Located source) :
    Traces source (eat? mark) before fun eaten after =>
      (eaten = true → before.lookahead.kind = .punctuator mark ∧ Uses source before after) ∧
      (eaten = false → after = before) := by
  apply at?_traces
  apply Yields.ite
  · intro isMark
    apply Yields.bind
    apply (advance_traces located).mono
    intro _ after ⟨_, uses⟩
    exact .pure ⟨fun _ => ⟨eq_of_beq isMark, uses⟩, nofun⟩
  · exact fun _ => .pure ⟨nofun, fun _ => rfl⟩

theorem expect_traces (mark : Punctuator) (located : before.Located source) :
    Traces source (expect mark) before fun token after => token = before.lookahead ∧
      before.lookahead.kind = .punctuator mark ∧ Uses source before after := by
  apply at?_traces
  apply Yields.ite
  · intro isMark
    apply (advance_traces located).mono
    intro token after ⟨equal, uses⟩
    exact ⟨equal, eq_of_beq isMark, uses⟩
  · exact fun _ => unexpected_traces located

/-- A comma follows an item, unless the list is closed. -/
theorem comma_traces {close : Punctuator} {next : Parse β} (located : before.Located source)
    (traces : ∀ after, Goes source before after → Traces source next after post) :
    Traces source
      (at? close >>= fun closes => if !closes then expect .comma >>= fun _ => next else next)
      before post := by
  apply at?_traces
  apply Yields.ite
  · intro _
    apply Yields.bind
    apply (expect_traces .comma located).mono
    intro _ after ⟨_, _, uses⟩
    exact traces after uses.toGoes
  · exact fun _ => traces before (.refl located)

theorem again_traces {invariant : α → ParserState → Prop} {value : α}
    (holds : invariant value before) :
    Traces source (Pure.pure (.again value) : Parse (Round α β)) before fun outcome after =>
      outcome.Holds (invariant · after) (post · after) :=
  .pure holds

/-- A round that goes on with what the action reads. -/
theorem againWith_traces {γ : Type} {action : Parse γ} {value : γ → α}
    {invariant : α → ParserState → Prop}
    (traces : Traces source action before fun result after => invariant (value result) after) :
    Traces source (action >>= fun result => Pure.pure (.again (value result) : Round α β)) before
      fun outcome after => outcome.Holds (invariant · after) (post · after) :=
  .bind (traces.mono fun _ _ holds => again_traces holds)

theorem done_traces {invariant : α → ParserState → Prop} {result : β}
    (holds : post result before) :
    Traces source (Pure.pure (.done result) : Parse (Round α β)) before fun outcome after =>
      outcome.Holds (invariant · after) (post · after) :=
  .pure holds

/-- A loop: every round keeps the invariant until it is done. -/
theorem loop_traces {round : α → Parse (Round α β)} (invariant : α → ParserState → Prop)
    (within : ∀ value state, invariant value state → state.Located source)
    (step : ∀ value state, invariant value state → Traces source (round value) state
      fun outcome after => outcome.Holds (invariant · after) (post · after))
    {value : α} (holds : invariant value before) :
    Traces source (loop round value) before post := by
  apply Yields.get
  apply Yields.repeatWithin invariant step
  · intro value state holds
    exact start_traces (fail_traces _ (within value state holds).start rfl)
  · exact holds

/-! ## Expressions -/

def SpansExpr (source : List Char) (parse : Parse Expr) : Prop :=
  ∀ before : ParserState, before.Located source →
    Traces source parse before fun expr after => Reads source before expr.outline after

theorem isolate_spans {parse : Parse Expr} (reads : SpansExpr source parse) :
    SpansExpr source (isolate parse) := by
  intro before located
  apply Yields.get
  apply Yields.modify
  apply Yields.bind
  have cleared : Located source { before with pendingInitializer := none } :=
    { located with pending := nofun }
  apply (reads _ cleared).mono
  intro expr middle read
  apply Yields.get
  split
  · next position pending => exact fail_traces _ (read.goes.located.pending position pending) rfl
  · apply Yields.modify
    apply Yields.pure
    exact ⟨⟨{ read.goes.located with pending := located.pending }, read.goes.offset,
      read.goes.previousEnd⟩, read.fills⟩

theorem inherit_spans {parse : Parse Expr} (reads : SpansExpr source parse) :
    SpansExpr source (inherit parse) := by
  intro before located
  apply Yields.get
  apply Yields.modify
  apply Yields.bind
  have cleared : Located source { before with pendingInitializer := none } :=
    { located with pending := nofun }
  apply (reads _ cleared).mono
  intro expr middle read
  apply Yields.modify
  apply Yields.pure
  have pending : ∀ position, before.pendingInitializer.or middle.pendingInitializer =
      some position → position.Marks source := by
    intro position found
    rcases Option.or_eq_some_iff.mp found with found | ⟨-, found⟩
    · exact located.pending position found
    · exact read.goes.located.pending position found
  exact ⟨⟨{ read.goes.located with pending }, read.goes.offset, read.goes.previousEnd⟩, read.fills⟩

/-! ## Words -/

theorem bindingName_traces (located : before.Located source) :
    Traces source bindingName before fun id after => UsesToken source before id.loc after := by
  apply kind_traces
  apply Yields.ite
  · exact fun _ => .bind (unexpected_traces located)
  · intro isName
    simp only [bne_iff_ne, ne_eq, Decidable.not_not] at isName
    apply Yields.bind
    apply (advance_traces located).mono
    intro token after ⟨equal, uses⟩
    subst equal
    apply Yields.get
    apply Yields.ite
    · exact fun _ => .bind (fail_traces _ located.start rfl)
    · exact fun _ => .pure (Uses.token located uses (by simp [isName]))

theorem propertyName_traces (located : before.Located source) :
    Traces source propertyName before fun id after => UsesToken source before id.loc after := by
  apply lookahead_traces
  apply Yields.ite
  · exact fun _ => .bind (unexpected_traces located)
  · intro isName
    have notEnd : before.lookahead.kind ≠ .endOfInput := by
      intro isEnd
      simp [Token.isName, isEnd, TokenKind.isKeyword] at isName
    apply Yields.bind
    apply (advance_traces located).mono
    intro token after ⟨equal, uses⟩
    subst equal
    exact .pure (Uses.token located uses notEnd)

theorem stringLiteral_traces (located : before.Located source) :
    Traces source stringLiteral before fun literal after =>
      UsesToken source before literal.loc after := by
  apply kind_traces
  apply Yields.ite
  · exact fun _ => .bind (unexpected_traces located)
  · intro isString
    simp only [bne_iff_ne, ne_eq, Decidable.not_not] at isString
    apply Yields.bind
    apply (advance_traces located).mono
    intro token after ⟨equal, uses⟩
    subst equal
    apply Yields.get
    apply Yields.ite
    · exact fun _ => .bind (fail_traces _ located.start rfl)
    · exact fun _ => .pure (Uses.token located uses (by simp [isString]))

theorem numberLiteral_traces (located : before.Located source)
    (isNumber : before.lookahead.kind = .numericLiteral) :
    Traces source numberLiteral before fun literal after =>
      UsesToken source before literal.loc after := by
  apply Yields.bind
  apply (advance_traces located).mono
  intro token after ⟨equal, uses⟩
  subst equal
  apply Yields.get
  apply Yields.ite
  · exact fun _ => .bind (fail_traces _ located.start (by split <;> rfl))
  · exact fun _ => .pure (Uses.token located uses (by simp [isNumber]))

end Parse

end ExprScript
