import ExprScript.Proofs.Outcome
import ExprScript.Token.Scanner

/-! # Readers move forward

Whatever a reader does, the text it leaves unread is a part of the text that was
unread before, and the offset has grown by the size of what lies between. So a
token starts where the one before it has stopped, or later.

Every round of a loop reads a character, or it is the last one. So no loop uses
up its budget, and the scanner never stalls.
-/

namespace ExprScript

def byteSize (text : List Char) : Nat := (text.map Char.utf8Size).sum

@[simp] theorem byteSize_nil : byteSize [] = 0 := rfl

@[simp] theorem byteSize_cons (c : Char) (text : List Char) :
    byteSize (c :: text) = c.utf8Size + byteSize text := by
  simp [byteSize]

@[simp] theorem byteSize_append (left right : List Char) :
    byteSize (left ++ right) = byteSize left + byteSize right := by
  simp [byteSize]

theorem dropBytes_append (passed rest : List Char) :
    dropBytes (byteSize passed) (passed ++ rest) = rest := by
  induction passed with
  | nil =>
      cases rest with
      | nil => rfl
      | cons c rest =>
          have positive := c.utf8Size_pos
          simp only [byteSize_nil, List.nil_append, dropBytes]
          rw [if_neg (by omega)]
  | cons c passed induction =>
      simp only [byteSize_cons, List.cons_append, dropBytes]
      rw [if_pos (by omega), Nat.add_sub_cancel_left, induction]

namespace Cursor

def Leads (before after : Cursor) : Prop :=
  ∃ passed, before.rest = passed ++ after.rest ∧
    after.position.offset = before.position.offset + byteSize passed

theorem Leads.refl (cursor : Cursor) : Leads cursor cursor := ⟨[], rfl, rfl⟩

theorem Leads.trans {first second third : Cursor} (left : Leads first second)
    (right : Leads second third) : Leads first third := by
  obtain ⟨passed, rest, offset⟩ := left
  obtain ⟨passed', rest', offset'⟩ := right
  refine ⟨passed ++ passed', ?_, ?_⟩
  · rw [rest, rest', List.append_assoc]
  · rw [offset', offset, byteSize_append, Nat.add_assoc]

theorem Leads.offset_le {before after : Cursor} (leads : Leads before after) :
    before.position.offset ≤ after.position.offset := by
  obtain ⟨passed, -, offset⟩ := leads
  omega

theorem leads_advance (cursor : Cursor) : Leads cursor cursor.advance := by
  unfold advance
  split
  · exact Leads.refl cursor
  · next rest equal => exact ⟨['\r', '\n'], by simp [equal, stepLine], rfl⟩
  · next c rest _ equal =>
      split
      · exact ⟨[c], by simp [equal, stepLine], rfl⟩
      · exact ⟨[c], by simp [equal, stepColumn], rfl⟩

def Passes (before after : Cursor) : Prop :=
  before.Leads after ∧ after.rest.length < before.rest.length

theorem Leads.length_le {before after : Cursor} (leads : Leads before after) :
    after.rest.length ≤ before.rest.length := by
  rcases leads with ⟨passed, text, -⟩
  rw [text, List.length_append]
  omega

theorem Passes.of_leads {first second third : Cursor} (passes : Passes first second)
    (leads : Leads second third) : Passes first third :=
  ⟨passes.1.trans leads, Nat.lt_of_le_of_lt leads.length_le passes.2⟩

theorem Passes.offset_lt {before after : Cursor} (passes : Passes before after) :
    before.position.offset < after.position.offset := by
  rcases passes with ⟨⟨passed, text, offset⟩, shorter⟩
  cases passed with
  | nil =>
      rw [text, List.nil_append] at shorter
      exact absurd shorter (Nat.lt_irrefl _)
  | cons c passed =>
      have positive := c.utf8Size_pos
      rw [byteSize_cons] at offset
      omega

theorem rest_advance {cursor : Cursor} {c : Char} (head : cursor.peek? = some c) :
    cursor.rest = c :: cursor.advance.rest ∨
      c = '\r' ∧ cursor.rest = '\r' :: '\n' :: cursor.advance.rest := by
  unfold advance
  split
  · next empty =>
      rw [peek?, empty] at head
      cases head
  · next text =>
      rw [peek?, text] at head
      cases head
      exact .inr ⟨rfl, text⟩
  · next text =>
      rw [peek?, text] at head
      cases head
      left
      split
      · exact text
      · exact text

theorem passes_advance {cursor : Cursor} {c : Char} (head : cursor.peek? = some c) :
    Passes cursor cursor.advance := by
  refine ⟨leads_advance cursor, ?_⟩
  rcases rest_advance head with text | ⟨-, text⟩
  · rw [text]
    exact Nat.lt_succ_self _
  · rw [text, List.length_cons, List.length_cons]
    omega

end Cursor

/-! ## Runs that do not stall -/

section

variable {σ α β : Type}

def Cause.isStall : Cause → Bool
  | .stalledScanner => true
  | _ => false

/-- The action succeeds with the postcondition, or it fails for another reason
than that the scanner has stalled. -/
def Safely (action : EStateM Error σ α) (before : σ) (post : α → σ → Prop) : Prop :=
  match action before with
  | .ok result after => post result after
  | .error error _ => error.cause.isStall = false

namespace Safely

variable {before : σ} {post : β → σ → Prop}

theorem ensures {action : EStateM Error σ α} {post : α → σ → Prop}
    (safely : Safely action before post) : Ensures action before post := by
  intro result after run
  rwa [Safely, run] at safely

theorem not_stalled {action : EStateM Error σ α} {post : α → σ → Prop}
    (safely : Safely action before post) {error : Error} {after : σ}
    (run : action before = .error error after) : error.cause ≠ .stalledScanner := by
  intro stalled
  simp only [Safely, run, stalled] at safely
  cases safely

theorem ensured {action : EStateM Error σ α} {post wider : α → σ → Prop}
    (safely : Safely action before post) (ensures : Ensures action before wider) :
    Safely action before wider := by
  unfold Safely at safely ⊢
  split
  · next run => exact ensures _ _ run
  · next run => rwa [run] at safely

theorem mono {action : EStateM Error σ α} {post wider : α → σ → Prop}
    (safely : Safely action before post)
    (within : ∀ result after, post result after → wider result after) :
    Safely action before wider :=
  safely.ensured (safely.ensures.mono within)

theorem pure {post : α → σ → Prop} {result : α} (holds : post result before) :
    Safely (Pure.pure result) before post := holds

theorem throw {post : α → σ → Prop} {error : Error} (other : error.cause.isStall = false) :
    Safely (MonadExcept.throw error : EStateM Error σ α) before post := other

theorem bind {action : EStateM Error σ α} {next : α → EStateM Error σ β}
    (safely : Safely action before fun result after => Safely (next result) after post) :
    Safely (action >>= next) before post := by
  unfold Safely at safely
  simp only [Safely, Bind.bind, EStateM.bind]
  cases run : action before with
  | ok value middle =>
      rw [run] at safely
      exact safely
  | error error middle =>
      rw [run] at safely
      exact safely

theorem get {next : σ → EStateM Error σ β} (safely : Safely (next before) before post) :
    Safely (MonadState.get >>= next) before post :=
  bind (pure safely)

theorem set {next : PUnit → EStateM Error σ β} {state : σ}
    (safely : Safely (next ⟨⟩) state post) :
    Safely (MonadStateOf.set state >>= next) before post :=
  bind safely

theorem ite {condition : Prop} [Decidable condition] {first second : EStateM Error σ β}
    (whenTrue : condition → Safely first before post)
    (whenFalse : ¬ condition → Safely second before post) :
    Safely (if condition then first else second) before post := by
  split
  · exact whenTrue ‹_›
  · exact whenFalse ‹_›

/-- A loop that comes closer to its end in every round. -/
theorem repeatWithin {exhausted : EStateM Error σ β}
    {round : α → EStateM Error σ (Round α β)} (size : σ → Nat) (invariant : σ → Prop)
    (step : ∀ value state, invariant state → Safely (round value) state fun outcome after =>
      outcome.Holds (fun _ => invariant after ∧ size after < size state) (post · after))
    {budget : Nat} (room : size before < budget) (value : α) (holds : invariant before) :
    Safely (ExprScript.repeatWithin exhausted round budget value) before post := by
  induction budget generalizing value before with
  | zero => omega
  | succ budget induction =>
      apply bind
      apply (step value before holds).mono
      intro outcome after result
      cases outcome with
      | again next =>
          have closer : size after < size before := result.2
          exact induction (by omega) next result.1
      | done result' => exact pure result

end Safely

end

namespace Reader

open Cursor

variable {α β : Type}

def Forward (reader : Reader α) : Prop :=
  ∀ before, Safely reader before fun _ after => before.Leads after

def Advances (reader : Reader α) (before : Cursor) : Prop :=
  Safely reader before fun _ after => before.Passes after

def Lively (round : Reader (Round α β)) (before : Cursor) : Prop :=
  Safely round before fun outcome after =>
    outcome.Holds (fun _ => before.Passes after) (fun _ => before.Leads after)

namespace Forward

theorem ensures {reader : Reader α} (forward : Forward reader) (before : Cursor) :
    Ensures reader before fun _ after => before.Leads after :=
  (forward before).ensures

theorem pure (result : α) : Forward (Pure.pure result) :=
  fun before => .pure (Leads.refl before)

theorem fail {cause : Cause} (position : Position) (other : cause.isStall = false) :
    Forward (fail cause position : Reader α) :=
  fun _ => .throw other

theorem bind {reader : Reader α} {next : α → Reader β} (start : Forward reader)
    (rest : ∀ value, Forward (next value)) : Forward (reader >>= next) := by
  intro before
  refine .bind ((start before).mono fun value middle leads => ?_)
  exact (rest value middle).mono fun _ _ leads' => leads.trans leads'

theorem get : Forward MonadState.get := fun before => Leads.refl before

theorem position : Forward position := bind get fun _ => pure _

theorem peek? : Forward peek? := bind get fun _ => pure _

theorem skip : Forward skip := leads_advance

theorem advance? : Forward advance? := leads_advance

theorem loop {round : α → Reader (Round α β)}
    (lively : ∀ value before, Lively (round value) before) (state : α) :
    Forward (loop round state) := by
  intro before
  refine .get (.repeatWithin (fun cursor : Cursor => cursor.rest.length)
    (fun middle => before.Leads middle) ?_ (Nat.lt_succ_self _) state (.refl before))
  intro value middle leads
  refine (lively value middle).mono fun outcome after holds => ?_
  cases outcome with
  | again => exact ⟨leads.trans holds.1, holds.2⟩
  | done => exact leads.trans holds

theorem ite {condition : Prop} [Decidable condition] {first second : Reader α}
    (left : Forward first) (right : Forward second) :
    Forward (if condition then first else second) := by
  split
  · exact left
  · exact right

end Forward

namespace Advances

variable {before : Cursor}

theorem bind {reader : Reader α} {next : α → Reader β} (advances : Advances reader before)
    (forward : ∀ value, Forward (next value)) : Advances (reader >>= next) before := by
  refine Safely.bind (Safely.mono advances fun value middle passes => ?_)
  exact (forward value middle).mono fun _ _ leads => passes.of_leads leads

theorem skip {c : Char} (head : before.peek? = some c) {next : PUnit → Reader α}
    (forward : Forward (next ⟨⟩)) : Advances (skip >>= next) before :=
  bind (passes_advance head) fun _ => forward

theorem advance? {c : Char} (head : before.peek? = some c) {next : Option Char → Reader α}
    (forward : ∀ value, Forward (next value)) : Advances (advance? >>= next) before :=
  bind (passes_advance head) forward

theorem peek? {next : Option Char → Reader α} (advances : Advances (next before.peek?) before) :
    Advances (peek? >>= next) before :=
  Safely.bind (.get (.pure advances))

theorem peekSecond? {next : Option Char → Reader α}
    (advances : ∀ second, Advances (next second) before) : Advances (peekSecond? >>= next) before :=
  Safely.bind (.get (.pure (advances _)))

theorem position {next : Position → Reader α} (advances : ∀ place, Advances (next place) before) :
    Advances (position >>= next) before :=
  Safely.bind (.get (.pure (advances _)))

theorem ite {condition : Prop} [Decidable condition] {first second : Reader α}
    (whenTrue : condition → Advances first before)
    (whenFalse : ¬ condition → Advances second before) :
    Advances (if condition then first else second) before :=
  Safely.ite whenTrue whenFalse

theorem loop {round : α → Reader (Round α β)}
    (lively : ∀ value before, Lively (round value) before) {state : α}
    (advances : Advances (round state) before) : Advances (loop round state) before := by
  refine .get (.bind (Safely.mono advances fun outcome middle passes => ?_))
  cases outcome with
  | done result => exact .pure passes
  | again next =>
      refine .repeatWithin (fun cursor : Cursor => cursor.rest.length)
        (fun cursor => before.Passes cursor) ?_ passes.2 next passes
      intro value cursor passes'
      refine (lively value cursor).mono fun outcome after holds => ?_
      cases outcome with
      | again => exact ⟨passes'.of_leads holds.1, holds.2⟩
      | done => exact passes'.of_leads holds

theorem loop_safely {round : α → Reader (Round α β)}
    (lively : ∀ value before, Lively (round value) before) (state : α) (before : Cursor) :
    Safely (Reader.loop round state) before fun _ after =>
      before.Leads after ∧ (Advances (round state) before → before.Passes after) := by
  by_cases advances : Advances (round state) before
  · exact Safely.mono (loop lively advances) fun _ _ passes => ⟨passes.1, fun _ => passes⟩
  · exact (Forward.loop lively state before).mono fun _ _ leads =>
      ⟨leads, fun wrong => absurd wrong advances⟩

end Advances

namespace Lively

variable {before : Cursor}

theorem of_advances {round : Reader (Round α β)} (advances : Advances round before) :
    Lively round before := by
  refine Safely.mono advances fun outcome after passes => ?_
  cases outcome with
  | again => exact passes
  | done => exact passes.1

theorem skip {c : Char} (head : before.peek? = some c) {next : PUnit → Reader (Round α β)}
    (forward : Forward (next ⟨⟩)) : Lively (skip >>= next) before :=
  of_advances (.skip head forward)

theorem get {next : Cursor → Reader (Round α β)} (lively : Lively (next before) before) :
    Lively (MonadState.get >>= next) before :=
  Safely.get lively

theorem position {next : Position → Reader (Round α β)}
    (lively : ∀ place, Lively (next place) before) : Lively (position >>= next) before :=
  .bind (.get (.pure (lively _)))

theorem peek? {next : Option Char → Reader (Round α β)}
    (lively : Lively (next before.peek?) before) : Lively (peek? >>= next) before :=
  .bind (.get (.pure lively))

theorem peekSecond? {next : Option Char → Reader (Round α β)}
    (lively : Lively (next before.peekSecond?) before) : Lively (peekSecond? >>= next) before :=
  .bind (.get (.pure lively))

theorem done (result : β) : Lively (Pure.pure (.done result) : Reader (Round α β)) before :=
  .pure (Leads.refl before)

theorem fail {cause : Cause} (position : Position) (other : cause.isStall = false) :
    Lively (fail cause position : Reader (Round α β)) before :=
  .throw other

theorem ite {condition : Prop} [Decidable condition] {first second : Reader (Round α β)}
    (whenTrue : Lively first before) (whenFalse : Lively second before) :
    Lively (if condition then first else second) before :=
  Safely.ite (fun _ => whenTrue) fun _ => whenFalse

end Lively

/-! ## The readers of tokens -/

theorem skipWhile_lively (drop : Char → Bool) (before : Cursor) : Lively (do
    match ← peek? with
    | some c => if drop c then skip; return .again () else return .done ()
    | none => return .done () : Reader (Round Unit Unit)) before := by
  refine .peek? ?_
  split
  · next head => exact .ite (.skip head (.pure _)) (.done _)
  · exact .done _

theorem skipWhile_forward (drop : Char → Bool) : Forward (skipWhile drop) :=
  .loop (fun _ => skipWhile_lively drop) ()

theorem skipWhile_advances {drop : Char → Bool} {before : Cursor} {c : Char}
    (head : before.peek? = some c) (dropped : drop c = true) :
    Advances (skipWhile drop) before := by
  refine .loop (fun _ => skipWhile_lively drop) (.peek? ?_)
  simp only [head, dropped, if_true]
  exact .skip head (.pure _)

theorem capture_forward {reader : Reader α} (forward : Forward reader) :
    Forward (capture reader) :=
  .bind .get fun _ => .bind forward fun _ => .bind .get fun _ => .pure _

theorem skipBlockComment_advances {before : Cursor} {c : Char} (head : before.peek? = some c) :
    Advances skipBlockComment before := by
  refine .position fun _ => .skip head (.bind .skip fun _ => .loop (fun _ middle => .peek? ?_) _)
  split
  · exact .fail _ rfl
  · next head =>
      refine .peekSecond? (.ite ?_ (.skip head (.pure _)))
      exact .skip head (.bind .skip fun _ => .pure _)

theorem skipTrivia_forward : Forward skipTrivia := by
  refine .loop (fun _ before => .peek? ?_) _
  split
  · exact .done _
  · next c head =>
      refine .ite (.skip head (.pure _)) (.peekSecond? (Safely.ite (fun opens => ?_) fun _ => ?_))
      · simp only [Bool.and_eq_true, beq_iff_eq] at opens
        rcases opens with ⟨rfl, -⟩
        exact Lively.of_advances (.bind (skipWhile_advances head rfl) fun _ => .pure _)
      · refine Lively.peekSecond? (.ite ?_ (.done _))
        exact .of_advances (.bind (skipBlockComment_advances head) fun _ => .pure _)

theorem peekDigit?_forward (radix : Nat) : Forward (peekDigit? radix) :=
  .bind .peek? fun _ => .pure _

theorem readDigitsUpTo_forward (radix count value : Nat) :
    Forward (readDigitsUpTo radix count value) := by
  induction count generalizing value with
  | zero => exact .pure _
  | succ count induction =>
      refine .bind (peekDigit?_forward radix) fun digit => ?_
      split
      · exact .bind .skip fun _ => induction _
      · exact .pure _

theorem readHexDigits_forward (start : Position) (count value : Nat) :
    Forward (readHexDigits start count value) := by
  induction count generalizing value with
  | zero => exact .pure _
  | succ count induction =>
      refine .bind (peekDigit?_forward 16) fun digit => ?_
      split
      · exact .bind .skip fun _ => induction _
      · exact .fail _ rfl

theorem readBracedCode_forward (start : Position) : Forward (readBracedCode start) := by
  refine .bind .skip fun _ => .bind (.loop (fun _ before => ?_) _) fun _ => ?_
  · refine Safely.bind (.bind (.get (.pure (.pure ?_))))
    split
    · next found =>
        rcases Option.bind_eq_some_iff.mp found with ⟨c, head, -⟩
        exact Lively.skip head (.pure _)
    · exact Lively.done _
  · refine .bind .peek? fun _ => .ite (.bind (.fail _ rfl) fun _ => ?_) ?_
    · exact .bind .skip fun _ => .pure _
    · exact .bind .skip fun _ => .pure _

theorem readUnicodeCode_forward (start : Position) : Forward (readUnicodeCode start) :=
  .bind .peek? fun _ => .ite (readBracedCode_forward start) (readHexDigits_forward start 4 0)

theorem readUnicodeEscape_forward (start : Position) : Forward (readUnicodeEscape start) := by
  refine .bind (readUnicodeCode_forward start) fun code before => .get ?_
  refine .ite (fun _ => ?_) fun _ => .pure (Leads.refl before)
  split
  · next low after run =>
      -- The second escape is read from the cursor behind its first two characters.
      refine .ite (fun _ => .set (.pure ?_)) fun _ => .pure (Leads.refl before)
      have leads := (readUnicodeCode_forward start).ensures _ _ _ run
      exact (leads_advance before).trans ((leads_advance _).trans leads)
  · exact .pure (Leads.refl before)

theorem readHexEscape_forward (start : Position) : Forward (readHexEscape start) := by
  refine .bind .advance? fun _ => .bind .advance? fun _ => ?_
  dsimp only
  split
  · exact .pure _
  · exact .fail _ rfl

theorem readDigitEscape_forward (start : Position) (inTemplate : Bool) (digit : Char) :
    Forward (readDigitEscape start inTemplate digit) := by
  refine .bind .peek? fun _ => .ite (.pure _) (.ite (.ite ?_ ?_) (.ite ?_ ?_))
  · exact .bind (.fail _ rfl) fun _ => .bind (readDigitsUpTo_forward _ _ _) fun _ => .pure _
  · exact .bind (readDigitsUpTo_forward _ _ _) fun _ => .pure _
  · exact .bind (.fail _ rfl) fun _ => .pure _
  · exact .pure _

theorem readEscape_forward (start : Position) (inTemplate : Bool) :
    Forward (readEscape start inTemplate) := by
  refine .bind .advance? fun next => ?_
  split
  · exact .fail _ rfl
  · split
    · exact .pure _
    · refine .ite (.pure _) (.ite ?_ (.ite ?_ (.ite ?_ (.pure _))))
      · exact .bind (readHexEscape_forward start) fun _ => .pure _
      · exact .bind (readUnicodeEscape_forward start) fun _ => .pure _
      · exact readDigitEscape_forward start inTemplate _

def stringRound (start : Position) (quote : Char) :
    List Char × Bool → Reader (Round (List Char × Bool) (List Char × Bool)) :=
  fun (reversed, octal) => do
    match ← peek? with
    | none | some '\n' | some '\r' => fail .unterminatedString start
    | some c =>
      if c == quote then
        skip
        return .done (reversed, octal)
      else if c == '\\' then
        let escapeStart ← position
        skip
        let escape ← readEscape escapeStart false
        return .again (escape.character?.toList ++ reversed, octal || escape.octal)
      else
        skip
        return .again (c :: reversed, octal)

theorem readString_eq (start : Position) : readString start = (do
    match ← advance? with
    | none => fail .unterminatedString start
    | some quote =>
      let (reversed, octal) ← loop (stringRound start quote) ([], false)
      return (String.ofList reversed.reverse, octal)) := rfl

theorem stringRound_lively (start : Position) (quote : Char) (state : List Char × Bool)
    (before : Cursor) : Lively (stringRound start quote state) before := by
  refine .peek? ?_
  split
  · exact .fail _ rfl
  · exact .fail _ rfl
  · exact .fail _ rfl
  · next head =>
      refine .ite (.skip head (.pure _)) (.ite ?_ (.skip head (.pure _)))
      refine .position fun _ => .skip head ?_
      exact .bind (readEscape_forward _ false) fun _ => .pure _

theorem readString_advances {before : Cursor} {c : Char} (head : before.peek? = some c)
    (start : Position) : Advances (readString start) before := by
  rw [readString_eq]
  refine .advance? head fun quote => ?_
  split
  · exact .fail _ rfl
  · exact .bind (.loop (stringRound_lively start _) _) fun _ => .pure _

def templateCharacter (c : Char) (reversed : List Char) :
    Reader (Round (List Char) TemplatePiece) := do
  if c == '\\' then
    let escapeStart ← position
    skip
    let escape ← readEscape escapeStart true
    return .again (escape.character?.toList ++ reversed)
  else
    skip
    return .again ((if c == '\r' then '\n' else c) :: reversed)

def pieceBetween (body stop : Cursor) (reversed : List Char) (opensHole : Bool) :
    TemplatePiece where
  cooked := String.ofList reversed.reverse
  raw := String.ofList (normalizeLineEnds (body.textUntil stop).toList)
  opensHole

def templateRound (start : Position) (body : Cursor) (reversed : List Char) :
    Reader (Round (List Char) TemplatePiece) := do
  match ← peek? with
  | none => fail .unterminatedTemplate start
  | some c =>
    if c == '\x60' then
      let stop ← get
      skip
      return .done (pieceBetween body stop reversed false)
    else if c == '$' && (← peekSecond?) == some '\x7b' then
      let stop ← get
      skip
      skip
      return .done (pieceBetween body stop reversed true)
    else templateCharacter c reversed

theorem readTemplatePiece_eq (start : Position) :
    readTemplatePiece start = (do loop (templateRound start (← get)) []) := rfl

theorem templateRound_lively (start : Position) (body : Cursor) (reversed : List Char)
    (before : Cursor) : Lively (templateRound start body reversed) before := by
  refine .peek? ?_
  split
  · exact .fail _ rfl
  · next head =>
      refine .ite (.get (.skip head (.pure _))) (.peekSecond? (.ite ?_ (.ite ?_ ?_)))
      · exact .get (.skip head (.bind .skip fun _ => .pure _))
      · refine .position fun _ => .skip head ?_
        exact .bind (readEscape_forward _ true) fun _ => .pure _
      · exact .skip head (.pure _)

theorem readTemplatePiece_forward (start : Position) : Forward (readTemplatePiece start) := by
  rw [readTemplatePiece_eq]
  exact .bind .get fun body => .loop (templateRound_lively start body) _

theorem isDigit_iff (c : Char) : c.isDigit = true ↔ 48 ≤ c.toNat ∧ c.toNat ≤ 57 := by
  simp [Char.isDigit, UInt32.le_iff_toNat_le]

theorem isDigitOf_ten (c : Char) : Number.isDigitOf 10 c = c.isDigit := by
  rw [Bool.eq_iff_iff, isDigit_iff]
  simp only [Number.isDigitOf, Number.digitValue?, Char.le_def, UInt32.le_iff_toNat_le, Char.toNat_val,
    Bool.and_eq_true, decide_eq_true_eq, Char.reduceToNat]
  split
  · simp only [Option.filter_some, decide_eq_true_eq]
    split
    · simp_all
    · simp; omega
  · split
    · simp only [Option.filter_some, decide_eq_true_eq]
      rw [if_neg (by omega)]
      simp; omega
    · split
      · simp only [Option.filter_some, decide_eq_true_eq]
        rw [if_neg (by omega)]
        simp; omega
      · simp; omega

def digitsRound (radix : Nat) :
    List Char × Bool → Reader (Round (List Char × Bool) (List Char)) :=
  fun (reversed, afterSeparator) => do
    match ← peek? with
    | some c =>
      if c == '_' then
        if reversed.isEmpty then fail .separatorNotAllowed (← position)
        if afterSeparator then fail .repeatedSeparator (← position)
        skip
        return .again (reversed, true)
      else if Number.isDigitOf radix c then
        skip
        return .again (c :: reversed, false)
      else if afterSeparator then fail .trailingSeparator (← position)
      else return .done reversed
    | none =>
      if afterSeparator then fail .trailingSeparator (← position)
      return .done reversed

theorem readDigits_eq (radix : Nat) : readDigits radix = (do
    let reversed ← loop (digitsRound radix) ([], false)
    return reversed.reverse) := rfl

theorem digitsRound_lively (radix : Nat) (state : List Char × Bool) (before : Cursor) :
    Lively (digitsRound radix state) before := by
  refine .peek? ?_
  split
  · next head =>
      refine .ite (.ite (.position fun _ => .fail _ rfl) ?_) (.ite (.skip head (.pure _)) ?_)
      · exact .ite (.position fun _ => .fail _ rfl) (.skip head (.pure _))
      · exact .ite (.position fun _ => .fail _ rfl) (.done _)
  · exact .ite (.position fun _ => .fail _ rfl) (.done _)

theorem readDigits_safely (radix : Nat) (before : Cursor) :
    Safely (readDigits radix) before fun _ after => before.Leads after ∧
      ∀ c, before.peek? = some c → Number.isDigitOf radix c = true → before.Passes after := by
  rw [readDigits_eq]
  refine .bind ((Advances.loop_safely (digitsRound_lively radix) _ before).mono ?_)
  intro digits after holds
  refine .pure ⟨holds.1, fun c head isDigit => holds.2 (.peek? ?_)⟩
  have notSeparator : (c == '_') = false := by
    rw [beq_eq_false_iff_ne]
    rintro rfl
    cases isDigit
  simp only [head, notSeparator, isDigit, if_true]
  exact .skip head (.pure _)

theorem readDigits_forward (radix : Nat) : Forward (readDigits radix) :=
  fun before => (readDigits_safely radix before).mono fun _ _ holds => holds.1

theorem skipMany_forward (count : Nat) : Forward (skipMany count) := by
  induction count with
  | zero => exact .pure _
  | succ count induction => exact .bind .skip fun _ => induction

theorem readFraction_forward : Forward readFraction :=
  .bind .peek? fun _ => .ite (.bind .skip fun _ => readDigits_forward 10) (.pure _)

theorem readSign_forward : Forward readSign := by
  refine .bind .peek? fun next => ?_
  split
  · exact .bind .skip fun _ => .pure _
  · exact .bind .skip fun _ => .pure _
  · exact .pure _

theorem readExponent_forward : Forward readExponent := by
  refine .bind .position fun _ => .bind .peek? fun next => ?_
  split
  · refine .ite (.bind .skip fun _ => .bind readSign_forward fun _ => ?_) (.pure _)
    refine .bind (readDigits_forward 10) fun _ => .ite ?_ (.pure _)
    exact .bind (.fail _ rfl) fun _ => .pure _
  · exact .pure _

theorem readDecimalTail_forward (whole : List Char) : Forward (readDecimalTail whole) :=
  .bind readFraction_forward fun _ => .bind readExponent_forward fun _ => .pure _

theorem readDecimalTail_advances {before : Cursor} (head : before.peek? = some '.')
    (whole : List Char) : Advances (readDecimalTail whole) before := by
  refine .bind (.peek? ?_) fun _ => .bind readExponent_forward fun _ => .pure _
  simp only [head]
  exact .skip head (readDigits_forward 10)

theorem readDecimal_advances {before : Cursor} {c : Char} (head : before.peek? = some c)
    (starts : c.isDigit = true ∨ c = '.') : Advances readDecimal before := by
  refine .peek? (.ite (fun isPoint => ?_) fun notPoint => ?_)
  · exact readDecimalTail_advances (by simpa using isPoint) _
  · have isDigit : Number.isDigitOf 10 c = true := by
      rw [isDigitOf_ten]
      rcases starts with isDigit | rfl
      · exact isDigit
      · exact absurd head (by simpa using notPoint)
    refine .bind ?_ readDecimalTail_forward
    exact (readDigits_safely 10 before).mono fun _ _ holds => holds.2 c head isDigit

theorem readRadixNumeral_advances {before : Cursor} {c : Char} (head : before.peek? = some c)
    (radix : Nat) (start : Position) : Advances (readRadixNumeral radix start) before := by
  refine .skip head (.bind .skip fun _ => .bind (readDigits_forward radix) fun _ => ?_)
  exact .ite (.bind (.fail _ rfl) fun _ => .pure _) (.pure _)

theorem readZeroNumeral_advances {before : Cursor} {c : Char} (head : before.peek? = some c)
    (isDigit : c.isDigit = true) : Advances readZeroNumeral before := by
  rcases List.head?_eq_some_iff.mp head with ⟨rest, text⟩
  refine Safely.get (Advances.bind ?_ fun _ => .ite (.pure _) ?_)
  · rw [text, List.takeWhile_cons_of_pos isDigit]
    exact .skip head (skipMany_forward _)
  · refine .bind .peek? fun _ => .ite ?_ (readDecimalTail_forward _)
    exact .bind .position fun _ => .bind (.fail _ rfl) fun _ => readDecimalTail_forward _

theorem readNumeral_advances {before : Cursor} {c : Char} (head : before.peek? = some c)
    (starts : c.isDigit = true ∨ c = '.') (start : Position) :
    Advances (readNumeral start) before := by
  have decimal := readDecimal_advances head starts
  refine .bind (.peek? (.ite (fun _ => ?_) fun isZero => .peekSecond? fun second => ?_))
    fun _ => .bind .peek? fun _ => .ite (.bind (.fail _ rfl) fun _ => .pure _) (.pure _)
  · exact .bind decimal fun _ => .pure _
  · split
    · exact .bind decimal fun _ => .pure _
    · split
      · exact .bind (readRadixNumeral_advances head _ start) fun _ => .pure _
      · refine .ite (fun _ => ?_) fun _ => .ite (fun _ => ?_) fun _ => ?_
        · exact .skip head (.bind .position fun _ => .fail _ rfl)
        · have isZero : before.peek? = some '0' := by simpa using isZero
          exact .bind (readZeroNumeral_advances isZero rfl) fun _ => .pure _
        · exact .bind decimal fun _ => .pure _

theorem readNameEscape_advances {before : Cursor} {c : Char} (head : before.peek? = some c)
    (atStart : Bool) : Advances (readNameEscape atStart) before := by
  refine .position fun start => .skip head (.bind .advance? fun _ => ?_)
  have code : Forward (do
      let code ← readUnicodeCode start
      if code.isValidChar && fitsName atStart (Char.ofNat code) then
        Pure.pure (Char.ofNat code)
      else fail .invalidUnicodeEscape start : Reader Char) :=
    .bind (readUnicodeCode_forward start) fun _ => .ite (.pure _) (.fail _ rfl)
  exact .ite (.bind (.fail _ rfl) fun _ => code) code

def nameRound : List Char × Bool → Reader (Round (List Char × Bool) (List Char × Bool)) :=
  fun (reversed, escaped) => do
    match ← peek? with
    | some c =>
      if c == '\\' then
        let character ← readNameEscape reversed.isEmpty
        return .again (character :: reversed, true)
      else if fitsName reversed.isEmpty c then
        skip
        return .again (c :: reversed, escaped)
      else return .done (reversed, escaped)
    | none => return .done (reversed, escaped)

theorem readNameText_eq : readNameText = (do
    let (reversed, escaped) ← loop nameRound ([], false)
    return (String.ofList reversed.reverse, escaped)) := rfl

theorem nameRound_lively (state : List Char × Bool) (before : Cursor) :
    Lively (nameRound state) before := by
  refine .peek? ?_
  split
  · next head =>
      refine .ite ?_ (.ite (.skip head (.pure _)) (.done _))
      exact .of_advances (.bind (readNameEscape_advances head _) fun _ => .pure _)
  · exact .done _

theorem readName_advances {before : Cursor} {c : Char} (head : before.peek? = some c)
    (starts : Text.isNameStart c = true ∨ c = '\\') (start : Position) :
    Advances (readName start) before := by
  have first : Advances (nameRound ([], false)) before := by
    refine .peek? ?_
    simp only [head]
    refine .ite (fun _ => ?_) fun noEscape => ?_
    · exact .bind (readNameEscape_advances head _) fun _ => .pure _
    · have fits : fitsName true c = true := by
        rcases starts with isStart | rfl
        · exact isStart
        · exact absurd rfl noEscape
      simp only [List.isEmpty_nil, fits, if_true]
      exact .skip head (.pure _)
  have text : Advances readNameText before := by
    rw [readNameText_eq]
    exact .bind (.loop nameRound_lively first) fun _ => .pure _
  refine .bind text fun ⟨name, escaped⟩ => ?_
  dsimp only
  split
  · exact .ite (.bind (.fail _ rfl) fun _ => .pure _) (.pure _)
  · exact .pure _

end Reader

end ExprScript
