import GrammarDesk.Proofs.Syntax.Locality

/-!
Contract: blocks of target code, read byte by byte.

Owns: the automaton that reads the bytes after an opening brace, the first place at which it has
no brace left open, and what this says about the tokens of a text that begin with a brace.

Does not own: skipping by characters (`ActionBlock`), or other lexemes (`Scan`).

All bytes of a character of more than one byte are beyond ASCII, and to the automaton they are
as good as one of them. So it reads characters, and every skip over characters is a way between
two of its states.

Main statements: the automaton closes a block where the search by characters does
(`afterClosing?_encode`), and blocks of target code are what it reads (`action_scanned`).
-/

namespace GrammarDesk

/-! ## Bytes of a text -/

namespace Text

def encode (characters : List Char) : List UInt8 :=
  characters.flatMap String.utf8EncodeChar

def bytes (text : String) : List UInt8 :=
  text.toByteArray.data.toList

theorem bytes_ofList (characters : List Char) :
    bytes (String.ofList characters) = encode characters := by
  rw [bytes, String.toByteArray_ofList, List.utf8Encode, List.toList_data_toByteArray, encode]

theorem length_bytes (text : String) : (bytes text).length = text.utf8ByteSize :=
  Array.length_toList

theorem bytes_append (left right : String) : bytes (left ++ right) = bytes left ++ bytes right := by
  rw [bytes, String.toByteArray_append, ByteArray.data_append, Array.toList_append]
  rfl

theorem encode_cons (character : Char) (rest : List Char) :
    encode (character :: rest) = String.utf8EncodeChar character ++ encode rest :=
  List.flatMap_cons

theorem encode_append (left right : List Char) :
    encode (left ++ right) = encode left ++ encode right :=
  List.flatMap_append

/-- A character of one byte is its byte. -/
theorem utf8EncodeChar_of_lt {character : Char} (ascii : character.toNat < 128) :
    String.utf8EncodeChar character = [character.toUInt8] := by
  refine String.utf8EncodeChar_eq_singleton (Char.utf8Size_eq_one_iff.mpr ?_)
  exact UInt32.le_iff_toNat_le.mpr (Nat.le_of_lt_succ ascii)

theorem le_ofNat {code : Nat} (low : 128 ≤ code) (high : code < 256) : 128 ≤ UInt8.ofNat code := by
  rw [UInt8.le_iff_toNat_le, UInt8.toNat_ofNat', Nat.mod_eq_of_lt high]
  exact low

/-- All bytes of other characters are beyond ASCII. -/
theorem le_of_mem_utf8EncodeChar {character : Char} (wide : 128 ≤ character.toNat) {byte : UInt8}
    (member : byte ∈ String.utf8EncodeChar character) : 128 ≤ byte := by
  have large : ¬ character.val.toNat ≤ 127 := Nat.not_le.mpr wide
  simp only [String.utf8EncodeChar, if_neg large] at member
  split_ifs at member <;> simp only [List.mem_cons, List.not_mem_nil, or_false] at member
  · rcases member with rfl | rfl <;> exact le_ofNat (by omega) (by omega)
  · rcases member with rfl | rfl | rfl <;> exact le_ofNat (by omega) (by omega)
  · rcases member with rfl | rfl | rfl | rfl <;> exact le_ofNat (by omega) (by omega)

/-- The size of a text that begins with a brace. -/
theorem utf8ByteSize_brace (rest : List Char) :
    (String.ofList ('{' :: rest)).utf8ByteSize = 1 + (encode rest).length := by
  rw [← length_bytes, bytes_ofList, encode_cons, List.length_append]
  rfl

end Text

namespace Syntax

namespace ActionBlock

open Text

/-! ## The automaton -/

inductive Quote where
  | single
  | double
deriving DecidableEq, Repr

def Quote.character : Quote → Char
  | .single => '\''
  | .double => '"'

/-- What the bytes read so far make of the next one. -/
inductive Mode where
  | code
  /-- In code, behind a slash that may open a comment. -/
  | slash
  | quoted (quote : Quote)
  /-- In quoted text, behind a backslash. -/
  | escaped (quote : Quote)
  | lineComment
  | blockComment
  /-- In a block comment, behind an asterisk that may close it. -/
  | star
deriving DecidableEq, Repr

structure State where
  mode : Mode
  /-- The number of open braces. -/
  depth : Nat
deriving DecidableEq, Repr

def stepCode (depth : Nat) (byte : UInt8) : State :=
  if byte = '{'.toUInt8 then ⟨.code, depth + 1⟩
  else if byte = '}'.toUInt8 then ⟨.code, depth - 1⟩
  else if byte = '\''.toUInt8 then ⟨.quoted .single, depth⟩
  else if byte = '"'.toUInt8 then ⟨.quoted .double, depth⟩
  else if byte = '/'.toUInt8 then ⟨.slash, depth⟩
  else ⟨.code, depth⟩

/-- Read one byte. Braces count in code only. -/
def step (state : State) (byte : UInt8) : State :=
  match state.mode with
  | .code => stepCode state.depth byte
  | .slash =>
      if byte = '/'.toUInt8 then ⟨.lineComment, state.depth⟩
      else if byte = '*'.toUInt8 then ⟨.blockComment, state.depth⟩
      else stepCode state.depth byte
  | .quoted quote =>
      if byte = quote.character.toUInt8 ∨ byte = '\n'.toUInt8 then ⟨.code, state.depth⟩
      else if byte = '\\'.toUInt8 then ⟨.escaped quote, state.depth⟩
      else state
  | .escaped quote => ⟨.quoted quote, state.depth⟩
  | .lineComment => if byte = '\n'.toUInt8 then ⟨.code, state.depth⟩ else state
  | .blockComment => if byte = '*'.toUInt8 then ⟨.star, state.depth⟩ else state
  | .star =>
      if byte = '/'.toUInt8 then ⟨.code, state.depth⟩
      else if byte = '*'.toUInt8 then state
      else ⟨.blockComment, state.depth⟩

def run (state : State) (bytes : List UInt8) : State :=
  bytes.foldl step state

/-- The state behind the brace that opens a block. -/
def start : State := ⟨.code, 1⟩

/-- The bytes end with the brace at which the automaton has no brace left open for the first
time. -/
def Closes (bytes : List UInt8) : Prop :=
  ∃ own, bytes = own ++ ['}'.toUInt8] ∧ (run start bytes).depth = 0 ∧
    ∀ earlier, earlier <+: own → 0 < (run start earlier).depth

/-- What follows the first byte at which no brace is left open, if there is one. -/
def afterClosing? (state : State) : List UInt8 → Option (List UInt8)
  | [] => none
  | byte :: rest =>
      if (step state byte).depth = 0 then some rest else afterClosing? (step state byte) rest

variable {state : State} {mode : Mode} {depth : Nat} {rest : List UInt8}

/-- Only a closing brace can bring the depth to zero. -/
theorem step_depth_pos {byte : UInt8} (opened : 0 < state.depth) (noClose : byte ≠ '}'.toUInt8) :
    0 < (step state byte).depth := by
  obtain ⟨mode, depth⟩ := state
  change 0 < depth at opened
  have code : 0 < (stepCode depth byte).depth := by
    unfold stepCode
    rw [if_neg noClose]
    split_ifs
    · exact Nat.succ_pos _
    all_goals exact opened
  unfold step
  cases mode with
  | code => exact code
  | escaped quote => exact opened
  | slash =>
      dsimp only
      split_ifs
      · exact opened
      · exact opened
      · exact code
  | quoted quote | lineComment | blockComment | star =>
      dsimp only
      split_ifs <;> exact opened

/-- The search finds the first byte at which no brace is left open; that is a closing brace. -/
theorem afterClosing?_eq_some_iff {bytes : List UInt8} (opened : 0 < state.depth) :
    afterClosing? state bytes = some rest ↔
      ∃ own, bytes = own ++ '}'.toUInt8 :: rest ∧
        (run state (own ++ ['}'.toUInt8])).depth = 0 ∧
        ∀ earlier, earlier <+: own → 0 < (run state earlier).depth := by
  induction bytes generalizing state with
  | nil =>
      refine ⟨nofun, ?_⟩
      rintro ⟨own, split, _⟩
      exact absurd split.symm (List.append_ne_nil_of_right_ne_nil own (List.cons_ne_nil _ _))
  | cons byte bytes inductionHypothesis =>
      rw [afterClosing?]
      by_cases closed : (step state byte).depth = 0
      · rw [if_pos closed, Option.some_inj]
        constructor
        · rintro rfl
          have isClose : byte = '}'.toUInt8 := by
            by_contra noClose
            exact absurd closed (Nat.ne_of_gt (step_depth_pos opened noClose))
          refine ⟨[], by rw [isClose, List.nil_append], isClose ▸ closed, ?_⟩
          rintro earlier isPrefix
          rw [List.prefix_nil.mp isPrefix]
          exact opened
        · rintro ⟨own, split, _, positive⟩
          cases own with
          | nil => exact (List.cons.inj split).2
          | cons first own =>
              obtain ⟨rfl, _⟩ := List.cons.inj split
              have begun := positive [byte] (List.prefix_append [byte] own)
              exact absurd closed (Nat.ne_of_gt begun)
      · have stillOpen := Nat.pos_of_ne_zero closed
        rw [if_neg closed, inductionHypothesis stillOpen]
        constructor
        · rintro ⟨own, rfl, isZero, positive⟩
          refine ⟨byte :: own, rfl, isZero, fun earlier isPrefix => ?_⟩
          rcases List.prefix_cons_iff.mp isPrefix with rfl | ⟨more, rfl, inside⟩
          · exact opened
          · exact positive more inside
        · rintro ⟨own, split, isZero, positive⟩
          cases own with
          | nil =>
              obtain ⟨rfl, _⟩ := List.cons.inj split
              exact absurd isZero closed
          | cons first own =>
              obtain ⟨rfl, rest⟩ := List.cons.inj split
              refine ⟨own, rest, isZero, fun earlier isPrefix => ?_⟩
              exact positive (byte :: earlier) ((List.prefix_cons_inj byte).mpr isPrefix)

/-- A byte at which a brace is left open is passed over. -/
theorem afterClosing?_cons {byte : UInt8} (opened : 0 < (step state byte).depth) :
    afterClosing? state (byte :: rest) = afterClosing? (step state byte) rest := by
  rw [afterClosing?, if_neg (Nat.ne_of_gt opened)]

/-! ## Reading characters -/

/-- The mode behind a byte that means nothing. -/
def Mode.passing : Mode → Mode
  | .slash => .code
  | .escaped quote => .quoted quote
  | .star => .blockComment
  | mode => mode

theorem Mode.passing_passing (mode : Mode) : mode.passing.passing = mode.passing := by
  cases mode <;> rfl

/-- Bytes beyond ASCII mean nothing. -/
theorem step_of_le {byte : UInt8} (high : 128 ≤ byte) :
    step ⟨mode, depth⟩ byte = ⟨mode.passing, depth⟩ := by
  have differs (other : Char) (ascii : other.toUInt8 < 128) : byte ≠ other.toUInt8 := by
    rintro rfl
    exact absurd high (UInt8.not_le.mpr ascii)
  cases mode with
  | quoted quote | escaped quote =>
      cases quote <;> simp (disch := decide) [step, Mode.passing, Quote.character, differs]
  | _ => simp (disch := decide) [step, stepCode, Mode.passing, differs]

/-- Bytes of a wide character are passed over: none of them is an ASCII character. -/
theorem afterClosing?_append_of_le {bytes : List UInt8} (opened : 0 < depth)
    (high : ∀ byte ∈ bytes, 128 ≤ byte) (some : bytes ≠ []) (rest : List UInt8) :
    afterClosing? ⟨mode, depth⟩ (bytes ++ rest) = afterClosing? ⟨mode.passing, depth⟩ rest := by
  induction bytes generalizing mode with
  | nil => exact absurd rfl some
  | cons byte bytes inductionHypothesis =>
      obtain ⟨first, later⟩ := List.forall_mem_cons.mp high
      have passes : step ⟨mode, depth⟩ byte = ⟨mode.passing, depth⟩ := step_of_le first
      have stillOpen : 0 < (step ⟨mode, depth⟩ byte).depth := by
        rw [passes]
        exact opened
      rw [List.cons_append, afterClosing?_cons stillOpen, passes]
      cases bytes with
      | nil => rfl
      | cons next bytes =>
          rw [inductionHypothesis later (List.cons_ne_nil _ _), Mode.passing_passing]

/-- What the automaton reads of a character: all that are not ASCII are alike. -/
def codeOf (character : Char) : UInt8 :=
  if character.toNat < 128 then character.toUInt8 else 128

/-- The automaton tells ASCII characters apart by their code, and takes no wide character for
one. -/
theorem codeOf_eq_iff {character other : Char} (ascii : other.toNat < 128) :
    codeOf character = other.toUInt8 ↔ character = other := by
  have size {character : Char} (ascii : character.toNat < 128) :
      character.toUInt8.toNat = character.toNat := by
    rw [Char.toUInt8, UInt32.toNat_toUInt8]
    exact Nat.mod_eq_of_lt (Nat.lt_trans ascii (by decide))
  rw [← UInt8.toNat_inj, size ascii, ← Char.toNat_inj, codeOf]
  split
  · rename_i ascii
    rw [size ascii]
  · rename_i wide
    show 128 = other.toNat ↔ _
    omega

/-- A character is one byte to the automaton. -/
theorem afterClosing?_encode_cons (opened : 0 < depth) (character : Char) (rest : List Char) :
    afterClosing? ⟨mode, depth⟩ (encode (character :: rest)) =
      afterClosing? ⟨mode, depth⟩ (codeOf character :: encode rest) := by
  rw [encode_cons, codeOf]
  split
  · rename_i ascii
    rw [utf8EncodeChar_of_lt ascii, List.singleton_append]
  · rename_i wide
    have high := fun byte => @le_of_mem_utf8EncodeChar character (Nat.le_of_not_lt wide) byte
    have highOne : ∀ byte ∈ [(128 : UInt8)], 128 ≤ byte :=
      List.forall_mem_singleton.mpr (UInt8.le_refl 128)
    rw [afterClosing?_append_of_le opened high String.utf8EncodeChar_ne_nil,
      ← afterClosing?_append_of_le opened highOne (List.cons_ne_nil _ _), List.singleton_append]

/-- The automaton passes over a character at which it leaves a brace open. -/
theorem afterClosing?_character (opened : 0 < depth) {character : Char} {next : Mode}
    {nextDepth : Nat} (stillOpen : 0 < nextDepth)
    (passes : step ⟨mode, depth⟩ (codeOf character) = ⟨next, nextDepth⟩) (rest : List Char) :
    afterClosing? ⟨mode, depth⟩ (encode (character :: rest)) =
      afterClosing? ⟨next, nextDepth⟩ (encode rest) := by
  have later : 0 < (step ⟨mode, depth⟩ (codeOf character)).depth := by
    rw [passes]
    exact stillOpen
  rw [afterClosing?_encode_cons opened, afterClosing?_cons later, passes]

/-- Where two modes make the same of the next character, they find the same. -/
theorem afterClosing?_congr (opened : 0 < depth) {character : Char} {other : Mode}
    (alike : step ⟨mode, depth⟩ (codeOf character) = step ⟨other, depth⟩ (codeOf character))
    (rest : List Char) :
    afterClosing? ⟨mode, depth⟩ (encode (character :: rest)) =
      afterClosing? ⟨other, depth⟩ (encode (character :: rest)) := by
  rw [afterClosing?_encode_cons opened, afterClosing?_encode_cons opened, afterClosing?,
    afterClosing?, alike]

/-! ## Skips -/

/-- Inside quotes the automaton goes on where the scanner finds the closing quote. -/
theorem afterClosing?_quoted (opened : 0 < depth) (quote : Quote) (characters : List Char) :
    afterClosing? ⟨.quoted quote, depth⟩ (encode characters) =
      afterClosing? ⟨.code, depth⟩ (encode (afterQuoted quote.character characters)) := by
  have ascii : quote.character.toNat < 128 := by cases quote <;> decide
  have newline : '\n'.toNat < 128 := by decide
  have backslash : '\\'.toNat < 128 := by decide
  have opens : step ⟨.quoted quote, depth⟩ (codeOf '\\') = ⟨.escaped quote, depth⟩ := by
    cases quote <;> rfl
  fun_induction afterQuoted quote.character characters with
  | case1 => rfl
  | case2 escaped rest inductionHypothesis =>
      rw [afterClosing?_character opened opened opens, afterClosing?_character opened opened rfl,
        inductionHypothesis]
  | case3 character rest noEscape isEnd =>
      have closes : step ⟨.quoted quote, depth⟩ (codeOf character) = ⟨.code, depth⟩ := by
        rw [step]
        exact if_pos (isEnd.imp (codeOf_eq_iff ascii).mpr (codeOf_eq_iff newline).mpr)
      exact afterClosing?_character opened opened closes rest
  | case4 character rest noEscape noEnd inductionHypothesis =>
      have stays : ¬(codeOf character = quote.character.toUInt8 ∨
          codeOf character = '\n'.toUInt8) :=
        fun isEnd => noEnd (isEnd.imp (codeOf_eq_iff ascii).mp (codeOf_eq_iff newline).mp)
      by_cases isBackslash : character = '\\'
      · -- No character is left for the backslash to take along.
        cases rest with
        | nil =>
            rw [isBackslash, afterClosing?_character opened opened opens]
            rfl
        | cons next rest => exact (noEscape next rest isBackslash rfl).elim
      · have passes : step ⟨.quoted quote, depth⟩ (codeOf character) = ⟨.quoted quote, depth⟩ := by
          rw [step]
          dsimp only
          rw [if_neg stays, if_neg (mt (codeOf_eq_iff backslash).mp isBackslash)]
        rw [afterClosing?_character opened opened passes, inductionHypothesis]

/-- Inside a line comment the automaton goes on behind the line. -/
theorem afterClosing?_line (opened : 0 < depth) (characters : List Char) :
    afterClosing? ⟨.lineComment, depth⟩ (encode characters) =
      afterClosing? ⟨.code, depth⟩ (encode (afterLine characters)) := by
  have newline : '\n'.toNat < 128 := by decide
  induction characters with
  | nil => rfl
  | cons character rest inductionHypothesis =>
      rw [afterLine]
      split
      · rename_i isEnd
        have closes : step ⟨.lineComment, depth⟩ (codeOf character) = ⟨.code, depth⟩ :=
          if_pos ((codeOf_eq_iff newline).mpr isEnd)
        exact afterClosing?_character opened opened closes rest
      · rename_i noEnd
        have passes : step ⟨.lineComment, depth⟩ (codeOf character) = ⟨.lineComment, depth⟩ :=
          if_neg (mt (codeOf_eq_iff newline).mp noEnd)
        rw [afterClosing?_character opened opened passes, inductionHypothesis]

/-- In a comment an asterisk waits for the slash that closes it. -/
theorem afterClosing?_comment (opened : 0 < depth) (characters : List Char) :
    afterClosing? ⟨.blockComment, depth⟩ (encode characters) =
        (afterComment? characters).bind (fun rest => afterClosing? ⟨.code, depth⟩ (encode rest)) ∧
      afterClosing? ⟨.star, depth⟩ (encode characters) =
        (afterComment? ('*' :: characters)).bind
          fun rest => afterClosing? ⟨.code, depth⟩ (encode rest) := by
  have star : '*'.toNat < 128 := by decide
  have slash : '/'.toNat < 128 := by decide
  induction characters with
  | nil => exact ⟨rfl, rfl⟩
  | cons character rest inductionHypothesis =>
      obtain ⟨inComment, behindStar⟩ := inductionHypothesis
      have fromComment : afterClosing? ⟨.blockComment, depth⟩ (encode (character :: rest)) =
          (afterComment? (character :: rest)).bind
            fun rest => afterClosing? ⟨.code, depth⟩ (encode rest) := by
        by_cases isStar : character = '*'
        · have waits : step ⟨.blockComment, depth⟩ (codeOf character) = ⟨.star, depth⟩ :=
            if_pos ((codeOf_eq_iff star).mpr isStar)
          rw [afterClosing?_character opened opened waits, behindStar, isStar]
        · have passes : step ⟨.blockComment, depth⟩ (codeOf character) =
              ⟨.blockComment, depth⟩ :=
            if_neg (mt (codeOf_eq_iff star).mp isStar)
          rw [afterClosing?_character opened opened passes, inComment, afterComment?]
          exact fun _ isStar' _ => isStar isStar'
      refine ⟨fromComment, ?_⟩
      by_cases isSlash : character = '/'
      · subst isSlash
        rw [afterClosing?_character opened opened rfl, afterComment?]
        rfl
      · have alike : step ⟨.star, depth⟩ (codeOf character) =
            step ⟨.blockComment, depth⟩ (codeOf character) :=
          if_neg (mt (codeOf_eq_iff slash).mp isSlash)
        have noClose : ∀ tail, '*' = '*' → character :: rest = '/' :: tail → False :=
          fun _ _ isNext => isSlash (List.cons.inj isNext).1
        rw [afterClosing?_congr opened alike, fromComment, afterComment?.eq_3 _ _ noClose]

/-- Behind a slash that opens no comment the automaton reads code. -/
theorem afterClosing?_slash (opened : 0 < depth) {characters : List Char}
    (noLine : ∀ rest, characters ≠ '/' :: rest) (noComment : ∀ rest, characters ≠ '*' :: rest) :
    afterClosing? ⟨.slash, depth⟩ (encode characters) =
      afterClosing? ⟨.code, depth⟩ (encode characters) := by
  have star : '*'.toNat < 128 := by decide
  have slash : '/'.toNat < 128 := by decide
  cases characters with
  | nil => rfl
  | cons character rest =>
      have noSlash : codeOf character ≠ '/'.toUInt8 := by
        rw [Ne, codeOf_eq_iff slash]
        rintro rfl
        exact noLine rest rfl
      have noStar : codeOf character ≠ '*'.toUInt8 := by
        rw [Ne, codeOf_eq_iff star]
        rintro rfl
        exact noComment rest rfl
      have alike : step ⟨.slash, depth⟩ (codeOf character) =
          step ⟨.code, depth⟩ (codeOf character) :=
        (if_neg noSlash).trans (if_neg noStar)
      exact afterClosing?_congr opened alike rest

/-! ## Blocks -/

/-- The automaton closes the block where the search by characters does. -/
theorem afterClosing?_encode (opened : 0 < depth) (characters : List Char) :
    afterClosing? ⟨.code, depth⟩ (encode characters) =
      (afterBlock? depth characters).map encode := by
  fun_induction afterBlock? depth characters with
  | case1 => rfl
  | case2 depth rest inductionHypothesis =>
      rw [afterClosing?_character opened (Nat.succ_pos _) rfl, inductionHypothesis (Nat.succ_pos _)]
  | case3 depth rest last =>
      have isZero : depth - 1 = 0 := Nat.sub_eq_zero_of_le last
      rw [afterClosing?_encode_cons opened, afterClosing?]
      exact if_pos isZero
  | case4 depth rest more inductionHypothesis =>
      have stillOpen : 0 < depth - 1 := by omega
      rw [afterClosing?_character opened stillOpen rfl, inductionHypothesis stillOpen]
  | case5 depth rest inductionHypothesis =>
      rw [afterClosing?_character opened opened rfl, afterClosing?_quoted opened .double,
        ← inductionHypothesis opened]
      rfl
  | case6 depth rest inductionHypothesis =>
      rw [afterClosing?_character opened opened rfl, afterClosing?_quoted opened .single,
        ← inductionHypothesis opened]
      rfl
  | case7 depth rest inductionHypothesis =>
      rw [afterClosing?_character opened opened rfl, afterClosing?_character opened opened rfl,
        afterClosing?_line opened, inductionHypothesis opened]
  | case8 depth rest unclosed =>
      rw [afterClosing?_character opened opened rfl, afterClosing?_character opened opened rfl,
        (afterClosing?_comment opened rest).1, unclosed]
      rfl
  | case9 depth rest after closed inductionHypothesis =>
      rw [afterClosing?_character opened opened rfl, afterClosing?_character opened opened rfl,
        (afterClosing?_comment opened rest).1, closed, ← inductionHypothesis opened]
      rfl
  | case10 depth first rest noOpen noClose noQuote noTick noLine noComment inductionHypothesis =>
      by_cases isSlash : first = '/'
      · subst isSlash
        have noLine : ∀ others, rest ≠ '/' :: others := fun others => noLine others rfl
        have noComment : ∀ others, rest ≠ '*' :: others := fun others => noComment others rfl
        rw [afterClosing?_character opened opened rfl, afterClosing?_slash opened noLine noComment,
          inductionHypothesis opened]
      · have differs {mark : Char} (ascii : mark.toNat < 128) (other : first ≠ mark) :
            codeOf first ≠ mark.toUInt8 :=
          mt (codeOf_eq_iff ascii).mp other
        have passes : step ⟨.code, depth⟩ (codeOf first) = ⟨.code, depth⟩ := by
          rw [step]
          dsimp only
          rw [stepCode, if_neg (differs (by decide) noOpen), if_neg (differs (by decide) noClose),
            if_neg (differs (by decide) noTick), if_neg (differs (by decide) noQuote),
            if_neg (differs (by decide) isSlash)]
        rw [afterClosing?_character opened opened passes, inductionHypothesis opened]

/-! ## What the skips leave -/

theorem afterQuoted_suffix (quote : Char) (characters : List Char) :
    afterQuoted quote characters <:+ characters := by
  fun_induction afterQuoted quote characters with
  | case1 => exact List.suffix_rfl
  | case2 escaped rest inductionHypothesis =>
      exact inductionHypothesis.trans ⟨['\\', escaped], rfl⟩
  | case3 character rest => exact List.suffix_cons character rest
  | case4 character rest _ _ inductionHypothesis =>
      exact inductionHypothesis.trans (List.suffix_cons character rest)

theorem afterLine_suffix (characters : List Char) : afterLine characters <:+ characters := by
  fun_induction afterLine characters with
  | case1 => exact List.suffix_rfl
  | case2 rest => exact List.suffix_cons _ rest
  | case3 character rest _ inductionHypothesis =>
      exact inductionHypothesis.trans (List.suffix_cons character rest)

theorem afterComment?_suffix {characters after : List Char}
    (found : afterComment? characters = some after) : after <:+ characters := by
  fun_induction afterComment? characters with
  | case1 => cases found
  | case2 rest =>
      obtain rfl := Option.some.inj found
      exact ⟨['*', '/'], rfl⟩
  | case3 character rest _ inductionHypothesis =>
      exact (inductionHypothesis found).trans (List.suffix_cons character rest)

/-- A closing brace stands before what follows a block. -/
theorem afterBlock?_suffix {characters after : List Char}
    (found : afterBlock? depth characters = some after) : '}' :: after <:+ characters := by
  fun_induction afterBlock? depth characters with
  | case1 => cases found
  | case2 depth rest inductionHypothesis =>
      exact (inductionHypothesis found).trans (List.suffix_cons _ rest)
  | case3 depth rest last =>
      obtain rfl := Option.some.inj found
      exact List.suffix_rfl
  | case4 depth rest more inductionHypothesis =>
      exact (inductionHypothesis found).trans (List.suffix_cons _ rest)
  | case5 depth rest inductionHypothesis | case6 depth rest inductionHypothesis =>
      exact (inductionHypothesis found).trans
        ((afterQuoted_suffix _ rest).trans (List.suffix_cons _ rest))
  | case7 depth rest inductionHypothesis =>
      exact (inductionHypothesis found).trans
        ((afterLine_suffix rest).trans ⟨['/', '/'], rfl⟩)
  | case8 depth rest unclosed => cases found
  | case9 depth rest left closed inductionHypothesis =>
      exact (inductionHypothesis found).trans
        ((afterComment?_suffix closed).trans ⟨['/', '*'], rfl⟩)
  | case10 depth first rest noOpen noClose noQuote noTick noLine noComment inductionHypothesis =>
      exact (inductionHypothesis found).trans (List.suffix_cons first rest)

/-- A closed block is as long as the automaton reads. -/
theorem closes_of_length? {characters : List Char} {length : Nat}
    (closed : length? characters = some length) :
    Closes (encode (characters.take length)) := by
  obtain ⟨after, found, rfl⟩ := Option.map_eq_some_iff.mp closed
  obtain ⟨own, rfl⟩ := (List.suffix_cons '}' after).trans (afterBlock?_suffix found)
  have search : afterClosing? start (encode (own ++ after)) = some (encode after) := by
    rw [start, afterClosing?_encode Nat.one_pos, found, Option.map_some]
  rw [afterClosing?_eq_some_iff Nat.one_pos] at search
  obtain ⟨inner, split, isZero, positive⟩ := search
  have isOwn : encode own = inner ++ ['}'.toUInt8] := by
    rw [encode_append, ← List.singleton_append, ← List.append_assoc] at split
    exact List.append_cancel_right split
  rw [List.length_append, Nat.add_sub_cancel_right, List.take_left, isOwn]
  exact ⟨inner, rfl, isZero, positive⟩

/-- In a block that is not closed the automaton always has a brace left open. -/
theorem not_closes_of_length? {characters : List Char} (unclosed : length? characters = none)
    {inside : List UInt8} (begins : inside <+: encode characters) : ¬Closes inside := by
  rintro ⟨own, rfl, isZero, positive⟩
  obtain ⟨rest, split⟩ := begins
  have search : afterClosing? start (encode characters) = none := by
    rw [start, afterClosing?_encode Nat.one_pos, Option.map_eq_none_iff.mp unclosed,
      Option.map_none]
  have found : afterClosing? start (encode characters) = some rest := by
    rw [afterClosing?_eq_some_iff Nat.one_pos, ← split, List.append_assoc, List.singleton_append]
    exact ⟨own, rfl, isZero, positive⟩
  exact absurd (search.symm.trans found) nofun

end ActionBlock

/-! ## Tokens -/

namespace Scan

open Text ActionBlock

variable {previous : Option Kind} {rest : List Char}

/-- The kind of the last lexeme that is no trivia. -/
def lastKind (previous : Option Kind) (before : List Lexeme) : Option Kind :=
  ((significant before).getLast?.map Lexeme.kind).or previous

theorem lastKind_cons (lexeme : Lexeme) (before : List Lexeme) :
    lastKind previous (lexeme :: before) =
      lastKind (if lexeme.kind.isTrivia then previous else some lexeme.kind) before := by
  rw [lastKind, lastKind, significant_cons, List.getLast?_append]
  cases isLast : (significant before).getLast? with
  | some last => rfl
  | none => cases isTrivia : lexeme.kind.isTrivia <;> simp [significant, isTrivia]

/-- Every lexeme is read behind those before it. -/
theorem exists_read {characters : List Char} {before after : List Lexeme} {lexeme : Lexeme}
    (split : lexemes previous characters = before ++ lexeme :: after) :
    ∃ first rest length following, characters = spelled before ++ first :: rest ∧
      classify (lastKind previous before) first rest = (lexeme.kind, length) ∧
      lexeme.text = String.ofList (first :: rest.take length) ∧
      lexemes following (rest.drop length) = after := by
  induction before generalizing previous characters with
  | nil =>
      obtain ⟨first, rest, length, rfl, read, isText, later⟩ := lexemes_eq_cons split
      exact ⟨first, rest, length, _, rfl, read, isText, later⟩
  | cons head before inductionHypothesis =>
      obtain ⟨start, others, taken, rfl, _, isHead, later⟩ := lexemes_eq_cons split
      obtain ⟨first, rest, length, following, left, read, isText, later⟩ :=
        inductionHypothesis later
      refine ⟨first, rest, length, following, ?_, ?_, isText, later⟩
      · have spells : spelled (head :: before) = start :: others.take taken ++ spelled before := by
          rw [spelled, List.flatMap_cons, isHead, String.toList_ofList, spelled]
        rw [spells, List.append_assoc, ← left, List.cons_append, List.take_append_drop]
      · rw [lastKind_cons]
        exact read

/-- Every token is read behind those before it, and stands where they end. -/
theorem exists_read_token {text : String} {before after : List Token} {token : Token}
    (split : tokenize text = before ++ token :: after) :
    ∃ first rest length following,
      text = Token.spell before ++ String.ofList (first :: rest) ∧
      token.offset = (Token.spell before).utf8ByteSize ∧
      classify ((significantOf before).getLast?.map Lexeme.kind) first rest =
        (token.kind, length) ∧
      token.text = String.ofList (first :: rest.take length) ∧
      lexemes following (rest.drop length) = after.map Token.toLexeme := by
  have tile := tile_tokenize text
  rw [split] at tile
  have readAll : lexemes none text.toList =
      before.map Token.toLexeme ++ token.toLexeme :: after.map Token.toLexeme := by
    rw [← Token.map_toLexeme_place 0 (lexemes none text.toList)]
    exact (congrArg (List.map Token.toLexeme) split).trans List.map_append
  obtain ⟨first, rest, length, following, characters, read, isText, later⟩ := exists_read readAll
  refine ⟨first, rest, length, following, ?_, ?_, ?_, isText, later⟩
  · rw [← String.toList_inj, String.toList_append, String.toList_ofList, toList_spell, characters]
  · rw [tile.offset_eq, Nat.zero_add]
    rfl
  · rw [lastKind, Option.or_none, ← significantOf_eq] at read
    exact read

/-- A token that begins with a brace which opens no list is a block of target code through the
brace at which the automaton, reading the bytes behind the first brace, has no brace left open
for the first time. Where there is no such brace, it is one unreadable token through the end of
the text. Either way it ends between two characters. -/
theorem action_scanned (text : String) {before after : List Token} {token : Token}
    (split : tokenize text = before ++ token :: after)
    (isBrace : token.text.toList.head? = some '{')
    (noList : opensList ((significantOf before).getLast?.map Lexeme.kind) = false) :
    ((token.kind = .action ∧
        ∃ inside rest, (bytes text).drop (token.offset + 1) = inside ++ rest ∧ Closes inside ∧
          token.stop = token.offset + 1 + inside.length) ∨
      (token.kind = .error ∧
        (∀ inside, inside <+: (bytes text).drop (token.offset + 1) → ¬Closes inside) ∧
        token.stop = text.utf8ByteSize ∧ after = [])) ∧
      (Range.emptyAt token.stop).LiesIn text := by
  have isMember : token ∈ tokenize text := by
    rw [split]
    exact List.mem_append_right before List.mem_cons_self
  refine ⟨?_, (holds_of_mem_tokenize isMember).liesIn.stop⟩
  obtain ⟨first, rest, length, _, whole, offset, read, isText, later⟩ := exists_read_token split
  obtain rfl : first = '{' := by
    rw [isText, String.toList_ofList] at isBrace
    exact Option.some.inj isBrace
  have following : (bytes text).drop (token.offset + 1) = encode rest := by
    rw [whole, bytes_append, bytes_ofList, offset, ← length_bytes, List.drop_length_add_append]
    rfl
  have stop : token.stop = token.offset + 1 + (encode (rest.take length)).length := by
    rw [Token.stop, Lexeme.size, isText, utf8ByteSize_brace, Nat.add_assoc]
  rw [classify, noList, if_neg Bool.false_ne_true] at read
  rw [following]
  cases isLength : length? rest with
  | some taken =>
      rw [isLength] at read
      obtain ⟨kind, rfl⟩ := Prod.mk.inj read
      refine .inl ⟨kind.symm, encode (rest.take taken), encode (rest.drop taken), ?_,
        closes_of_length? isLength, stop⟩
      rw [← encode_append, List.take_append_drop]
  | none =>
      rw [isLength] at read
      obtain ⟨kind, rfl⟩ := Prod.mk.inj read
      refine .inr ⟨kind.symm, fun inside begins => not_closes_of_length? isLength begins, ?_, ?_⟩
      · rw [stop, List.take_length, offset, whole, String.utf8ByteSize_append,
          utf8ByteSize_brace, Nat.add_assoc]
      · rw [List.drop_length, lexemes] at later
        exact List.map_eq_nil_iff.mp later.symm

/-- Neither a brace in quoted text, behind an escaped quote, nor one in a comment closes the
block. -/
theorem action_scanned_past_quote :
    let text := "a\x7b'é\\'\x7d'/*/\x7d*/\x7db"
    let token : Token := ⟨⟨.action, "\x7b'é\\'\x7d'/*/\x7d*/\x7d"⟩, 1⟩
    tokenize text = [⟨⟨.identifier, "a"⟩, 0⟩] ++ token :: [⟨⟨.identifier, "b"⟩, 16⟩] ∧
      ∃ inside rest, (bytes text).drop 2 = inside ++ rest ∧ Closes inside ∧
        inside.length = 14 := by
  intro text token
  have split : tokenize text =
      [⟨⟨.identifier, "a"⟩, 0⟩] ++ token :: [⟨⟨.identifier, "b"⟩, 16⟩] := by
    decide +kernel
  have isBrace : token.text.toList.head? = some '{' := by decide
  obtain ⟨⟨_, inside, rest, found, closes, stop⟩ | ⟨isError, _⟩, _⟩ :=
    action_scanned text split isBrace (by decide)
  · refine ⟨split, inside, rest, found, closes, ?_⟩
    have isStop : token.stop = 16 := by decide
    rw [isStop] at stop
    exact (Nat.add_left_cancel (stop : 2 + 14 = 2 + inside.length)).symm
  · cases isError

end Scan

end Syntax

end GrammarDesk
