import ExprScript.Proofs.Span.State
import ExprScript.Proofs.Token.Rereading

/-! # Counting lines while scanning

A scanner counts offsets, lines and columns as it goes along. Tokens may be asked of it and
slashes may be read again as regular expressions in any order, and it goes on where a request
has failed. Whatever it has been through, its counters are those of the text before it, and
so are the places of everything that it has returned. Lines and columns are counted in 32
bits: they are exact in every text of less than `2 ^ 32 - 1` characters.
-/

namespace ExprScript

def countedLineStart (source : List Char) (offset : Nat) : Nat :=
  lineStartBehind (takeBytes offset source)

/-- The counters of a cursor are those of the text before it, and it goes on behind that text. -/
structure Cursor.Counts (source : List Char) (cursor : Cursor) : Prop where
  position : cursor.position.Counts source
  lineStart : cursor.lineStart = countedLineStart source cursor.position.offset
  rest : source = takeBytes cursor.position.offset source ++ cursor.rest

theorem Cursor.Located.counts {source : List Char} {cursor : Cursor}
    (located : cursor.Located source) : cursor.Counts source := by
  have marks := located.marks
  rcases located with ⟨passed, text, position, lineStart, -⟩
  have before : takeBytes cursor.position.offset source = passed := by
    rw [text, position]
    exact takeBytes_append passed cursor.rest
  constructor
  · exact marks.counts
  · rw [countedLineStart, before]
    exact lineStart
  · rw [before]
    exact text

/-- The places of a token are those of the text before them. -/
structure Token.Counts (source : List Char) (token : Token) : Prop where
  start : token.span.start.Counts source
  lineStart : token.lineStart = countedLineStart source token.span.start.offset
  stop : token.span.stop.Counts source

theorem Token.Located.counts {source : List Char} {token : Token}
    (located : token.Located source) : token.Counts source := by
  constructor
  · exact located.marks.counts
  · rcases located.start with ⟨cursor, placed, start, lineStart⟩
    rw [lineStart, start]
    exact placed.counts.lineStart
  · exact located.stop.counts

namespace Scanner

variable {source : List Char} {slash : Token}

/-! ## Requests -/

/-- What may be asked of a scanner. -/
inductive Request where
  /-- The next token. -/
  | next
  /-- To read a slash again, which is given by the number of tokens returned since then. -/
  | rescan (since : Nat)

structure History where
  scanner : Scanner
  tokens : List Token := []
  errors : List Error := []

namespace History

def note (history : History) (action : Scan Token) : History :=
  match action history.scanner with
  | .ok token scanner => { history with scanner, tokens := token :: history.tokens }
  | .error error scanner => { history with scanner, errors := error :: history.errors }

def answer (history : History) : Request → History
  | .next => history.note next
  | .rescan since =>
    match history.tokens[since]? with
    | some slash =>
      if slash.kind = .punctuator .slash ∨ slash.kind = .punctuator .slashEqual then
        history.note (rescanRegExp slash)
      else history
    | none => history

/-- What a new scanner goes through when it is asked one thing after the other. -/
def of (source : String) (requests : List Request) : History :=
  requests.foldl answer { scanner := .ofString source }

end History

/-! ## Failures

The scanner is at a place of the source after a failure as well.
-/

theorem next_tracks : Tracks source next := by
  apply Tracks.bind (.read Reader.skipTrivia_tracks)
  intro _
  apply Tracks.get
  intro scanner located
  have marks := located.cursor.marks
  dsimp only
  split
  · exact .pure _
  · apply Tracks.bind (scanLexeme_tracks marks _)
    intro _
    apply Tracks.get
    intro _ _
    exact .ite (.bind (.fail _ marks rfl) fun _ => .pure _) (.pure _)

theorem rescanRegExp_tracks (located : slash.Located source) :
    Tracks source (rescanRegExp slash) := by
  apply Tracks.get
  intro scanner placed
  -- The cursor goes back to the slash, where it was before.
  have back : Tracks source (modify fun scanner' =>
      { scanner' with cursor := scanner.cursorAt slash.span.start slash.lineStart }) :=
    fun _ placed' => ⟨placed'.source_eq, cursorAt_located placed located⟩
  apply Tracks.bind back
  intro _
  apply Tracks.bind (.read (readRegExp_tracks located.marks))
  intro _
  exact .get fun _ _ => .pure _

/-! ## Histories -/

namespace History

/-- The scanner, its tokens and its errors are all at places of the source. -/
structure Located (source : List Char) (history : History) : Prop where
  scanner : history.scanner.Located source
  tokens : ∀ token ∈ history.tokens, token.Located source
  errors : ∀ error ∈ history.errors, error.Marks source

theorem Located.note {history : History} (located : history.Located source) {action : Scan Token}
    (tracks : Tracks source action)
    (ensures : Ensures action history.scanner fun token _ => token.Located source) :
    (history.note action).Located source := by
  unfold History.note
  split
  · next token scanner run =>
      constructor
      · exact (tracks.yields located.scanner).ensures token scanner run
      · exact List.forall_mem_cons.mpr ⟨ensures token scanner run, located.tokens⟩
      · exact located.errors
  · next error scanner run =>
      have failed := tracks.failed located.scanner run
      constructor
      · exact failed.2
      · exact located.tokens
      · exact List.forall_mem_cons.mpr ⟨failed.1.marks, located.errors⟩

theorem Located.answer {history : History} (located : history.Located source)
    (request : Request) : (history.answer request).Located source := by
  cases request with
  | next =>
      apply located.note next_tracks
      exact (next_located located.scanner).ensures.mono fun _ _ holds => holds.2.1
  | rescan since =>
      simp only [History.answer]
      split
      · next slash found =>
          split
          · next isSlash =>
              have placed := located.tokens slash (List.mem_of_getElem? found)
              have notEnd : slash.kind ≠ .endOfInput := by
                rcases isSlash with isSlash | isSlash <;> simp [isSlash]
              apply located.note (rescanRegExp_tracks placed)
              have rescanned := rescanRegExp_located located.scanner placed notEnd
              exact rescanned.ensures.mono fun _ _ holds => holds.2.1
          · exact located
      · exact located

theorem located_of (source : String) (requests : List Request) :
    (of source requests).Located source.toList := by
  have start : Located source.toList { scanner := .ofString source } :=
    ⟨⟨rfl, .ofString source⟩, List.forall_mem_nil _, List.forall_mem_nil _⟩
  unfold of
  generalize ({ scanner := .ofString source } : History) = history at start
  induction requests generalizing history with
  | nil => exact start
  | cons request requests induction => exact induction _ (start.answer request)

/-- The counters of a scanner, the places of its tokens and those of its errors are always the
ones that are counted along the source. -/
theorem counts_of (source : String) (requests : List Request) :
    (of source requests).scanner.cursor.Counts source.toList ∧
      (∀ token ∈ (of source requests).tokens, token.Counts source.toList) ∧
      ∀ error ∈ (of source requests).errors, error.position.Counts source.toList := by
  have located := located_of source requests
  exact ⟨located.scanner.cursor.counts, fun token member => (located.tokens token member).counts,
    fun error member => (located.errors error member).counts⟩

theorem column_of_spaces (count : Nat) :
    let source := String.ofList (List.replicate count ' ')
    let position := (of source [.next]).scanner.cursor.position
    position.column.toNat = (count + 1) % 2 ^ 32 ∧
      columnBehind (takeBytes position.offset source.toList) = count + 1 := by
  intro source position
  rcases next_spaces count with ⟨token, scanner, run, -, -, reached⟩
  have same : position = .behind (List.replicate count ' ') := by
    simp only [position, source, of, List.foldl_cons, List.foldl_nil, History.answer, History.note,
      run]
    exact reached
  rw [same, String.toList_ofList]
  exact column_behind_spaces count

/-- The counter of the columns is back at zero where the column is `2 ^ 32`. -/
theorem column_wraps :
    let source := String.ofList (List.replicate (2 ^ 32 - 1) ' ')
    let position := (of source [.next]).scanner.cursor.position
    position.column.toNat = 0 ∧
      columnBehind (takeBytes position.offset source.toList) = 2 ^ 32 := by
  have counted := column_of_spaces (2 ^ 32 - 1)
  have limit : 2 ^ 32 - 1 + 1 = 2 ^ 32 := by norm_num
  rwa [limit, Nat.mod_self] at counted

/-- The regular expression on the second line is not closed there; the scanner goes on behind
it, and the one on the third line is read. -/
example : (of "a\r\n/b\n/c/g" [.next, .next, .rescan 0, .next, .rescan 0]).tokens.map
    (fun token => (token.span.start.line, token.span.start.column, token.lineStart)) =
      [(3, 1, 6), (3, 1, 6), (2, 1, 3), (1, 1, 0)] := by
  decide +kernel

end History

end Scanner

end ExprScript
