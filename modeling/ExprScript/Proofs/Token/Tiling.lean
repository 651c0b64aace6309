import ExprScript.Proofs.Token.Rereading
import ExprScript.Proofs.Token.Trivia

/-! # Tokens and trivia tile the text

The tokens of a text lie one behind the other, each of them is a part of the text,
and nothing but blanks and complete comments lies between them.
-/

namespace ExprScript

structure Token.Covers (token : Token) (source : String) : Prop where
  nonempty : token.span.start.offset < token.span.stop.offset
  start_valid : String.Pos.Raw.IsValid source ⟨token.span.start.offset⟩
  stop_valid : String.Pos.Raw.IsValid source ⟨token.span.stop.offset⟩
  raw : token.raw =
    String.Pos.Raw.extract source ⟨token.span.start.offset⟩ ⟨token.span.stop.offset⟩

/-- Nothing but trivia lies between two offsets of a text. -/
def IsGap (source : String) (start stop : Nat) : Prop :=
  ∃ passed gap follow, source.toList = passed ++ gap ++ follow ∧
    start = byteSize passed ∧ stop = byteSize (passed ++ gap) ∧ Trivia gap follow

/-- From an offset on, tokens and gaps take turns. -/
def Tiles (source : String) : Nat → List Token → Prop
  | _, [] => True
  | offset, token :: tokens =>
    IsGap source offset token.span.start.offset ∧ token.Covers source ∧
      Tiles source token.span.stop.offset tokens

/-- Where the last token stops; without tokens that is the offset itself. -/
def lastStop : Nat → List Token → Nat
  | offset, [] => offset
  | _, token :: tokens => lastStop token.span.stop.offset tokens

theorem IsGap.le {source : String} {start stop : Nat} (isGap : IsGap source start stop) :
    start ≤ stop := by
  rcases isGap with ⟨passed, gap, follow, -, rfl, rfl, -⟩
  rw [byteSize_append]
  exact Nat.le_add_right _ _

theorem Tiles.start_le {source : String} {offset : Nat} {tokens : List Token}
    (tiles : Tiles source offset tokens) {token : Token} (member : token ∈ tokens) :
    offset ≤ token.span.start.offset := by
  induction tokens generalizing offset with
  | nil => cases member
  | cons first tokens induction =>
      rcases tiles with ⟨isGap, covers, later⟩
      rcases List.mem_cons.mp member with rfl | member
      · exact isGap.le
      · have later := induction later member
        have nonempty := covers.nonempty
        have gap := isGap.le
        omega

theorem Tiles.pairwise {source : String} {offset : Nat} {tokens : List Token}
    (tiles : Tiles source offset tokens) : tokens.Pairwise fun earlier later =>
      earlier.span.stop.offset ≤ later.span.start.offset := by
  induction tokens generalizing offset with
  | nil => exact .nil
  | cons first tokens induction =>
      rcases tiles with ⟨-, -, later⟩
      exact .cons (fun token member => later.start_le member) (induction later)

theorem utf8Len_eq_byteSize (text : List Char) : String.utf8Len text = byteSize text := by
  induction text with
  | nil => rfl
  | cons c text induction => rw [String.utf8Len_cons, byteSize_cons, induction, Nat.add_comm]

theorem isValid_byteSize {source : String} {passed rest : List Char}
    (text : source.toList = passed ++ rest) :
    String.Pos.Raw.IsValid source ⟨byteSize passed⟩ := by
  rw [String.Pos.Raw.isValid_iff_exists_append]
  refine ⟨String.ofList passed, String.ofList rest, ?_, ?_⟩
  · rw [← String.ofList_append, ← text, String.ofList_toList]
  · rw [← utf8Len_eq_byteSize, String.rawEndPos_ofList]

theorem extract_byteSize {source : String} {passed middle rest : List Char}
    (text : source.toList = passed ++ middle ++ rest) :
    String.Pos.Raw.extract source ⟨byteSize passed⟩ ⟨byteSize (passed ++ middle)⟩ =
      String.ofList middle := by
  have extract := String.extract_of_valid passed middle rest
  rwa [← text, String.ofList_toList, ← String.utf8Len_append, utf8Len_eq_byteSize,
    utf8Len_eq_byteSize] at extract

namespace Scanner

open Reader

/-! ## One token -/

theorem Lexed.kind_ne {start : Position} {cursor : Cursor} {lexeme : Lexeme}
    (lexed : Lexed start cursor lexeme) : lexeme.1 ≠ .endOfInput := by
  cases lexed with
  | string => exact nofun
  | template isTemplate =>
      rintro rfl
      cases isTemplate
  | number => exact nofun
  | name _ _ run =>
      rcases readName_kind _ _ _ _ run with rfl | ⟨word, rfl⟩
      · exact nofun
      · exact nofun
  | punctuator => exact nofun

/-- What a call of the scanner does: it skips trivia, and then it reads the token
that starts there, or it is at the end of the text. -/
theorem next_reads (before : Scanner) : Ensures next before fun token after =>
    ∃ cursor, before.cursor.Skips cursor ∧ token.span.start = cursor.position ∧
      (token.kind = .endOfInput ∧ cursor.rest = [] ∧ after = { before with cursor } ∨
        token.kind ≠ .endOfInput ∧ Passes { before with cursor } after ∧
          token.span.stop = after.cursor.position ∧
          token.raw = cursor.textUntil after.cursor) := by
  refine .bind (read_ensures.mono fun newline middle found => .get ?_)
  rcases found with ⟨run, same⟩
  refine ?_
  dsimp only
  have skips := skipTrivia_skips _ _ _ run
  split
  · next head =>
      exact .pure ⟨middle.cursor, skips, rfl, .inl ⟨rfl, List.head?_eq_none_iff.mp head, same⟩⟩
  · next head =>
      refine .bind (((scanLexeme_lexed _ head).both (scanLexeme_advances head _).ensures).mono ?_)
      intro lexeme after found
      refine .get (.ite (fun _ => .bind (.throw _)) fun _ => .pure ?_)
      exact ⟨middle.cursor, skips, rfl, .inr ⟨found.1.kind_ne, same ▸ found.2, rfl, rfl⟩⟩

theorem next_passes (before : Scanner) : Ensures next before fun token after =>
    token.kind ≠ .endOfInput → before.Passes after := by
  refine (next_reads before).mono fun token after found notEnd => ?_
  rcases found with ⟨cursor, skips, -, atEnd | ⟨-, passes, -⟩⟩
  · exact absurd atEnd.1 notEnd
  · refine ⟨passes.source, skips.leads.trans passes.cursor.1, ?_⟩
    exact Nat.lt_of_lt_of_le passes.cursor.2 skips.leads.length_le

theorem next_at_end {scanner : Scanner} (empty : scanner.cursor.rest = []) :
    ∃ token, next scanner = .ok token scanner ∧ token.kind = .endOfInput := by
  have noTrivia : NoTrivia scanner.cursor.rest := by
    rw [empty]
    exact nofun
  have achieves : Achieves next scanner fun token after =>
      after = scanner ∧ token.kind = .endOfInput := by
    apply Achieves.bind
    refine ⟨_, _, read_skipTrivia noTrivia, .get ?_⟩
    dsimp only
    rw [Cursor.peek?, empty]
    exact .pure ⟨rfl, rfl⟩
  rcases achieves with ⟨token, after, run, rfl, isEnd⟩
  exact ⟨token, run, isEnd⟩

/-! ## All tokens -/

/-- Calls of the scanner that return these tokens, none of which is the end. -/
inductive Scanned : Scanner → List Token → Scanner → Prop
  | none {scanner : Scanner} : Scanned scanner [] scanner
  | token {scanner middle last : Scanner} {token : Token} {tokens : List Token}
      (run : next scanner = .ok token middle) (notEnd : token.kind ≠ .endOfInput)
      (later : Scanned middle tokens last) : Scanned scanner (token :: tokens) last

/-- The scanner is at a place of the text. -/
def Within (scanner : Scanner) (source : String) : Prop :=
  scanner.source = source.toList ∧ scanner.Placed

variable {source : String} {before after : Scanner} {token : Token}

theorem Within.of_leads (within : before.Within source) (leads : before.Leads after) :
    after.Within source :=
  ⟨leads.source.trans within.1, within.2.of_leads leads⟩

theorem Within.isGap (within : before.Within source) {cursor : Cursor}
    (skips : before.cursor.Skips cursor) :
    IsGap source before.cursor.position.offset cursor.position.offset := by
  rcases within with ⟨whole, passed, text, offset⟩
  rcases skips with ⟨gap, text', offset', trivia⟩
  refine ⟨passed, gap, cursor.rest, ?_, offset, ?_, trivia⟩
  · rw [← whole, text, text', List.append_assoc]
  · rw [offset', offset, byteSize_append]

theorem Within.covers {cursor : Cursor} (within : Within { before with cursor } source)
    (passes : Passes { before with cursor } after) (start : token.span.start = cursor.position)
    (stop : token.span.stop = after.cursor.position)
    (raw : token.raw = cursor.textUntil after.cursor) : token.Covers source := by
  rcases within with ⟨whole, passed, text, offset⟩
  rcases passes.cursor.1 with ⟨middle, text', offset'⟩
  dsimp only at whole text offset text' offset'
  have text : source.toList = passed ++ middle ++ after.cursor.rest := by
    rw [← whole, text, text', List.append_assoc]
  have stopOffset : after.cursor.position.offset = byteSize (passed ++ middle) := by
    rw [offset', offset, byteSize_append]
  constructor
  · rw [start, stop]
    exact passes.cursor.offset_lt
  · rw [start, offset]
    rw [List.append_assoc] at text
    exact isValid_byteSize text
  · rw [stop, stopOffset]
    exact isValid_byteSize text
  · rw [raw, start, stop, offset, stopOffset, extract_byteSize text]
    exact Cursor.Leads.textUntil passes.cursor.1 text'

theorem Within.next (within : before.Within source) (run : next before = .ok token after)
    (notEnd : token.kind ≠ .endOfInput) :
    IsGap source before.cursor.position.offset token.span.start.offset ∧
      token.Covers source ∧ token.span.stop = after.cursor.position ∧ before.Passes after := by
  rcases next_reads before _ _ run with ⟨cursor, skips, start, atEnd | ⟨-, passes, stop, raw⟩⟩
  · exact absurd atEnd.1 notEnd
  · have within' : Within { before with cursor } source := within.of_leads ⟨rfl, skips.leads⟩
    refine ⟨?_, within'.covers passes start stop raw, stop, next_passes before _ _ run notEnd⟩
    rw [start]
    exact within.isGap skips

theorem Within.next_end (within : before.Within source) (run : Scanner.next before = .ok token after)
    (isEnd : token.kind = .endOfInput) :
    IsGap source before.cursor.position.offset source.utf8ByteSize ∧ after.cursor.rest = [] := by
  rcases next_reads before _ _ run with ⟨cursor, skips, -, ⟨-, empty, rfl⟩ | inside⟩
  · refine ⟨?_, empty⟩
    have within' : Within { before with cursor } source := within.of_leads ⟨rfl, skips.leads⟩
    have size : cursor.position.offset = source.utf8ByteSize := by
      rcases within' with ⟨whole, passed, text, offset⟩
      dsimp only at whole text offset
      rw [empty, List.append_nil, whole] at text
      rw [offset, ← text, ← utf8Len_eq_byteSize, ← String.utf8ByteSize_ofList,
        String.ofList_toList]
    rw [← size]
    exact within.isGap skips
  · exact absurd isEnd inside.1

/-- Many calls: tiles from the first place to the last one. -/
theorem Scanned.tiles {tokens : List Token} {last : Scanner} (scanned : Scanned before tokens last)
    (within : before.Within source) : Tiles source before.cursor.position.offset tokens ∧
      last.Within source ∧
      last.cursor.position.offset = lastStop before.cursor.position.offset tokens ∧
      tokens.length + last.cursor.rest.length ≤ before.cursor.rest.length := by
  induction scanned with
  | none => exact ⟨trivial, within, rfl, Nat.le_of_eq (Nat.zero_add _)⟩
  | token run notEnd _ induction =>
      rcases within.next run notEnd with ⟨isGap, covers, stop, passes⟩
      rcases induction (within.of_leads passes.leads) with ⟨tiles, within', stops, length⟩
      rw [← stop] at tiles stops
      refine ⟨⟨isGap, covers, tiles⟩, within', stops, ?_⟩
      have shorter := passes.cursor.2
      rw [List.length_cons]
      omega

theorem exists_scanned (scanner : Scanner) : ∃ tokens last, Scanned scanner tokens last ∧
    ∀ token final, next last = .ok token final → token.kind = .endOfInput := by
  -- The induction is on the length of the unread text.
  generalize bound : scanner.cursor.rest.length = size
  induction size using Nat.strong_induction_on generalizing scanner with
  | _ size induction =>
      by_cases goesOn : ∃ token middle, next scanner = .ok token middle ∧
          token.kind ≠ .endOfInput
      · rcases goesOn with ⟨token, middle, run, notEnd⟩
        have shorter := (next_passes scanner _ _ run notEnd).cursor.2
        rw [bound] at shorter
        rcases induction _ shorter middle rfl with ⟨tokens, last, scanned, ends⟩
        exact ⟨token :: tokens, last, .token run notEnd scanned, ends⟩
      · refine ⟨[], scanner, .none, fun token final run => ?_⟩
        by_contra notEnd
        exact goesOn ⟨token, final, run, notEnd⟩

theorem allTokens_safely (scanner : Scanner) : Safely allTokens scanner fun _ _ => True := by
  refine .get (.bind ?_)
  refine .repeatWithin (fun state : Scanner => state.cursor.rest.length) (fun _ => True) ?_
    (Nat.lt_succ_self _) _ trivial
  intro reversed before _
  refine .bind (((next_safely before).ensured (next_passes before)).mono fun token after passes => ?_)
  refine .ite (fun _ => .pure (.pure trivial)) fun goesOn => .pure ⟨trivial, ?_⟩
  exact (passes (by simpa using goesOn)).cursor.2

/-- The tokens of every text tile it. However often the scanner is called, as long
as it does not fail, its tokens are parts of the text that lie one behind the other
with nothing but trivia in the gaps; it fails for some other reason than that it
has stalled; and once it has returned the end, it returns it forever. After at most
as many calls as the text has characters, it fails or returns the end. -/
theorem scanned_tiles (source : String) :
    (∀ tokens last, Scanned (ofString source) tokens last →
      Tiles source 0 tokens ∧
      (tokens.Pairwise fun earlier later =>
        earlier.span.stop.offset ≤ later.span.start.offset) ∧
      tokens.length ≤ source.length ∧
      (∀ error final, next last = .error error final → error.cause ≠ .stalledScanner) ∧
      ∀ token final, next last = .ok token final → token.kind = .endOfInput →
        IsGap source (lastStop 0 tokens) source.utf8ByteSize ∧
        ∃ again, next final = .ok again final ∧ again.kind = .endOfInput) ∧
    (∃ tokens last, Scanned (ofString source) tokens last ∧
      ∀ token final, next last = .ok token final → token.kind = .endOfInput) ∧
    ∀ error, tokenize source = .error error → error.cause ≠ .stalledScanner := by
  have within : (ofString source).Within source := ⟨rfl, placed_ofString source⟩
  refine ⟨?_, exists_scanned _, ?_⟩
  · intro tokens last scanned
    rcases scanned.tiles within with ⟨tiles, within', stops, length⟩
    refine ⟨tiles, tiles.pairwise, ?_, ?_, ?_⟩
    · exact Nat.le_trans (Nat.le_add_right _ _) length
    · intro error final run
      exact (next_safely last).not_stalled run
    · intro token final run isEnd
      rcases within'.next_end run isEnd with ⟨isGap, empty⟩
      rw [stops] at isGap
      exact ⟨isGap, next_at_end empty⟩
  · intro error run
    have safely := allTokens_safely (ofString source)
    rw [tokenize] at run
    split at run
    · cases run
    · next failed =>
        cases run
        exact safely.not_stalled failed

end Scanner

end ExprScript
