import Codewright.Proofs.Text.Bytes
import Codewright.Proofs.Text.Search
import Codewright.Proofs.Text.Space

/-!
# Masks, byte by byte

A mask is made by a loop over the bytes of the source, which keeps an offset, copies a byte or a character to its output, or
writes blanks for so many bytes, up to the end of a character. Every byte it reads and every part it cuts out is checked.

* `Reader.round` – one round of the loop; `readBytes` – the loop;
* `startsRegex_written` – the loop judges a slash as the reader of characters does, or cuts the word in front of it out through
  a character;
* `Spot` – a reader of characters in the middle of a text, `Spot.answer` what comes of it, `Reads` some characters that it reads;
* `At` – both readers stand at the same place; `At.push`, `At.blank` and `blank_escape` take both on.
-/

namespace Codewright.Text.Bytewise

open Source

/-! ## The loop -/

/-- Why there is no mask. -/
inductive Halt where
  | unterminated (part : Unterminated)
  /-- A byte is asked for that is not there, or the text is cut inside a character. -/
  | cut
  /-- There are no more rounds. -/
  | endless
deriving DecidableEq

/-- What must be there. -/
def checked {α : Type} : Option α → Except Halt α
  | some a => .ok a
  | none => .error .cut

theorem checked_some_bind {α β : Type} (a : α) (f : α → Except Halt β) : (checked (some a) >>= f) = f a := rfl

/-- The text between two bytes. -/
def slice (i j : Nat) (text : List Char) : Except Halt (List Char) :=
  checked (if i ≤ j then (dropBytes? i text).bind (takeBytes? (j - i)) else none)

/-- The size of a character that begins with the byte. -/
def sizeFrom (b : UInt8) : Nat :=
  if b.toNat < 128 then 1 else if b.toNat < 192 then 4 else if b.toNat < 224 then 2 else if b.toNat < 240 then 3 else 4

/-- The byte where the last character begins that satisfies `p`. -/
def lastStart? (p : Char → Bool) : List Char → Option Nat
  | [] => none
  | c :: cs => ((lastStart? p cs).map (c.utf8Size + ·)).or (if p c then some 0 else none)

/-- A reader of bytes between two rounds. -/
structure Reader where
  /-- The next byte. -/
  offset : Nat := 0
  /-- What has been written. -/
  out : List Char := []
  frames : List Enclosure := []
  /-- The last byte of code that begins no blank. -/
  last : Option UInt8 := none

/-- The first byte from `i` on where a character begins or the text ends; `n` more are tried. -/
def widen (text : List Char) : Nat → Nat → Nat
  | 0, i => i
  | n + 1, i => if (dropBytes? i text).isSome then i else widen text n (i + 1)

/-- Blanks in place of characters, with the same bytes and line ends. -/
def blanks (run : List Char) : List Char :=
  run.flatMap fun c => if c = '\n' then ['\n'] else List.replicate c.utf8Size ' '

namespace Reader

/-- Copies a byte that is a character. -/
def push (r : Reader) (b : UInt8) : Reader := { r with offset := r.offset + 1, out := r.out ++ [Char.ofUInt8 b] }

/-- Writes blanks for `n` bytes, up to the end of a character. -/
def blank (text : List Char) (n : Nat) (r : Reader) : Except Halt Reader := do
  let stop := widen text (byteLength text) (min (r.offset + n) (byteLength text))
  let run ← slice r.offset stop text
  return { r with offset := stop, out := r.out ++ blanks run }

end Reader

/-- A string or a pattern, with the byte where it begins. -/
inductive Quoting where
  | string (quote : UInt8) (start : Nat)
  | regex (start : Nat)

namespace Quoting

/-- What is left open. -/
def part : Quoting → Unterminated
  | string _ start => .string start
  | regex start => .regex start

/-- The byte that ends it. -/
def close : Quoting → UInt8
  | string quote _ => quote
  | regex _ => '/'.toUInt8

/-- Nothing ends it inside of brackets. -/
def hasClasses : Quoting → Bool
  | string .. => false
  | regex _ => true

end Quoting

/-- Inside of brackets, behind a byte. -/
def classAfter (inClass : Bool) (b : UInt8) : Bool :=
  if b = '['.toUInt8 then true else if b = ']'.toUInt8 then false else inClass

/-- Reads a string or a pattern behind its first byte, with its end. -/
def Reader.quoted (text : List Char) (q : Quoting) : Nat → Bool → Reader → Except Halt Reader
  | 0, _, _ => .error .endless
  | n + 1, inClass, r =>
    match (bytes text)[r.offset]? with
    | none => .error (.unterminated q.part)
    | some b =>
      if b = '\n'.toUInt8 then .error (.unterminated q.part)
      else if b = q.close ∧ ¬(q.hasClasses ∧ inClass) then .ok (r.push b)
      else if b = '\\'.toUInt8 then do Reader.quoted text q n inClass (← r.blank text 2)
      else do Reader.quoted text q n (classAfter inClass b) (← r.blank text 1)

/-- The bytes behind which a slash opens a pattern. -/
def operators : List UInt8 := "(,=:[!&|?\x7b\x7d;+-*%<>~^".toList.map Char.toUInt8

/-- Whether a slash opens a pattern, by the last byte of code, and by the word that the output ends with. -/
def startsRegex (last : Option UInt8) (out : List Char) : Except Halt Bool :=
  match last with
  | none => .ok true
  | some b =>
    if isPlainWord (Char.ofUInt8 b) then do
      let text := trimEnd out
      let start := ((lastStart? (fun c => !isPlainWord c) text).map (· + 1)).getD 0
      let word ← checked (dropBytes? start text)
      let before ← checked (takeBytes? start text)
      return !(['.'].isSuffixOf before) && operandKeywords.contains (String.ofList word)
    else .ok (operators.contains b)

namespace Reader

/-- A round in a template. -/
def template (text : List Char) (r : Reader) (b : UInt8) : Except Halt Reader :=
  if b = '\x60'.toUInt8 then .ok { r.push b with frames := r.frames.tail, last := some b }
  else if b = '$'.toUInt8 ∧ (bytes text)[r.offset + 1]? = some '\x7b'.toUInt8 then
    .ok { (r.push b).push '\x7b'.toUInt8 with
      frames := .substitution 0 :: r.frames, last := some '\x7b'.toUInt8 }
  else if b = '\\'.toUInt8 then r.blank text 2
  else r.blank text 1

/-- Reads a string. -/
def string (text : List Char) (r : Reader) (b : UInt8) : Except Halt Reader := do
  let r' ← quoted text (.string b r.offset) (text.length + 1) false (r.push b)
  return { r' with last := some b }

/-- Reads a block comment. -/
def blockComment (text : List Char) (r : Reader) : Except Halt Reader := do
  let rest ← checked (dropBytes? (r.offset + 2) text)
  match cutAt ['*', '/'] rest with
  | none => .error (.unterminated (.comment r.offset))
  | some (body, _) => r.blank text (byteLength body + 4)

/-- Reads a comment up to the end of its line. -/
def lineComment (text : List Char) (r : Reader) : Except Halt Reader := do
  let rest ← checked (dropBytes? r.offset text)
  match cutAt ['\n'] rest with
  | none => r.blank text (byteLength text - r.offset)
  | some (line, _) => r.blank text (byteLength line)

/-- Reads a pattern. A slash behind it divides, as behind a bracket. -/
def regex (text : List Char) (r : Reader) (b : UInt8) : Except Halt Reader := do
  let r' ← quoted text (.regex r.offset) (text.length + 1) false (r.push b)
  return { r' with last := some ')'.toUInt8 }

/-- Reads a byte of code that begins neither a quoted part nor a comment. -/
def plain (forms : LexicalForms) (text : List Char) (r : Reader) (b : UInt8) : Except Halt Reader :=
  if b = '\x60'.toUInt8 ∧ forms.templates then .ok { r.push b with frames := .template :: r.frames }
  else if b = '\x7b'.toUInt8 then .ok { r.push b with frames := openBrace r.frames, last := some b }
  else if b = '\x7d'.toUInt8 then .ok { r.push b with frames := closeBrace r.frames, last := some b }
  else do
    let stop := min (r.offset + sizeFrom b) (byteLength text)
    let c ← slice r.offset stop text
    return { r with
      offset := stop, out := r.out ++ c, last := if isAsciiSpace (Char.ofUInt8 b) then r.last else some b }

/-- A round in code. -/
def code (forms : LexicalForms) (text : List Char) (r : Reader) (b : UInt8) : Except Halt Reader :=
  if b = '\''.toUInt8 ∨ b = '"'.toUInt8 then r.string text b
  else if b = '/'.toUInt8 ∧ (bytes text)[r.offset + 1]? = some '*'.toUInt8 then r.blockComment text
  else if b = '/'.toUInt8 ∧ forms.lineComments ∧ (bytes text)[r.offset + 1]? = some '/'.toUInt8 then r.lineComment text
  else if b = '/'.toUInt8 ∧ forms.regexLiterals then do
    if ← startsRegex r.last r.out then r.regex text b else r.plain forms text b
  else r.plain forms text b

/-- One round of the loop. -/
def round (forms : LexicalForms) (text : List Char) (r : Reader) : Except Halt Reader := do
  let b ← checked (bytes text)[r.offset]?
  if r.frames.head? = some .template then r.template text b else r.code forms text b

/-- What has been written, if nothing is open. -/
def finish (text : List Char) (r : Reader) : Except Halt (List Char) :=
  if r.frames.isEmpty then .ok r.out
  else .error (.unterminated (.template ((lastStart? (· == '\x60') text).getD 0)))

/-- At most `n` rounds, up to the end of the text. -/
def loop (forms : LexicalForms) (text : List Char) : Nat → Reader → Except Halt (List Char)
  | 0, _ => .error .endless
  | n + 1, r => do
    if r.offset < byteLength text then loop forms text n (← r.round forms text) else r.finish text

end Reader

/-- The mask of a text, made byte by byte. -/
def readBytes (forms : LexicalForms) (source : String) : Except Halt (List Char) :=
  Reader.loop forms source.toList (source.toList.length + 1) {}

variable {forms : LexicalForms} {text a b run rest cs : List Char} {cells : List Cell} {c d : Char} {r : Reader} {n i : Nat}

/-! ## Bytes and characters -/

theorem toNat_ofUInt8 (b : UInt8) : (Char.ofUInt8 b).toNat = b.toNat := UInt8.toNat_toUInt32 b

theorem ofUInt8_firstByte (ascii : c.toNat < 128) : Char.ofUInt8 (firstByte c) = c := by
  rw [← Char.toNat_inj, toNat_ofUInt8, firstByte_of_ascii ascii, toNat_toUInt8_of_ascii ascii]

/-- What holds of no character beyond ASCII can be told by the first byte. -/
theorem apply_ofUInt8_firstByte {p : Char → Bool} (narrow : ∀ d, 128 ≤ d.toNat → p d = false) (c : Char) :
    p (Char.ofUInt8 (firstByte c)) = p c := by
  by_cases ascii : c.toNat < 128
  · rw [ofUInt8_firstByte ascii]
  · have wide := le_firstByte (Nat.not_lt.1 ascii)
    rw [← toNat_ofUInt8] at wide
    rw [narrow c (Nat.not_lt.1 ascii), narrow _ (by omega)]

theorem map_firstByte_eq_some_iff {o : Option Char} (ascii : d.toNat < 128) :
    o.map firstByte = some d.toUInt8 ↔ o = some d := by
  cases o with
  | none => simp
  | some c => simp [firstByte_eq_iff ascii]

theorem sizeFrom_firstByte (c : Char) : sizeFrom (firstByte c) = c.utf8Size := by
  have size := String.length_utf8EncodeChar c
  by_cases ascii : c.toNat < 128
  · rw [utf8EncodeChar_of_ascii ascii] at size
    rw [firstByte_of_ascii ascii, sizeFrom, toNat_toUInt8_of_ascii ascii, if_pos ascii]
    exact size
  · obtain ⟨b, bs, encoded, -, sizes⟩ := exists_utf8EncodeChar (Nat.not_lt.1 ascii)
    have first : firstByte c = b := by simp [firstByte, encoded]
    rw [encoded, List.length_cons] at size
    rw [first, ← size, sizeFrom]
    split_ifs <;> omega

/-! ## Parts of the text -/

theorem exists_of_dropBytes? (h : dropBytes? n cs = some rest) : ∃ before, cs = before ++ rest ∧ n = byteLength before := by
  fun_induction dropBytes? n cs with
  | case1 cs => exact ⟨[], (Option.some.inj h), rfl⟩
  | case2 => cases h
  | case3 n c cs fits ih =>
    obtain ⟨before, rfl, size⟩ := ih h
    refine ⟨c :: before, rfl, ?_⟩
    rw [byteLength, ← size]
    omega
  | case4 => cases h

theorem isSome_dropBytes?_iff : (dropBytes? n cs).isSome ↔ IsBoundary cs n := by
  constructor
  · intro some_rest
    obtain ⟨rest, h⟩ := Option.isSome_iff_exists.1 some_rest
    obtain ⟨before, same, size⟩ := exists_of_dropBytes? h
    exact ⟨before, rest, same, size⟩
  · rintro ⟨before, behind, rfl, rfl⟩
    rw [dropBytes?_append]
    rfl

/-- No boundary is inside a character. -/
theorem le_of_isBoundary (boundary : IsBoundary (a ++ c :: b) n) (lt : byteLength a < n) :
    byteLength (a ++ [c]) ≤ n := by
  obtain ⟨before, behind, same, rfl⟩ := boundary
  rcases List.append_eq_append_iff.1 same with ⟨more, rfl, rest⟩ | ⟨less, rfl, -⟩
  · cases more with
    | nil => simp at lt
    | cons d more =>
      obtain ⟨rfl, -⟩ := List.cons.inj rest
      simp only [byteLength_append, byteLength]
      omega
  · rw [byteLength_append] at lt
    omega

/-- From the inside of a character, the next boundary is its end. -/
theorem widen_eq (lt : byteLength a < i) (le : i ≤ byteLength (a ++ [c])) (tries : byteLength (a ++ [c]) ≤ i + n) :
    widen (a ++ c :: b) n i = byteLength (a ++ [c]) := by
  induction n generalizing i with
  | zero => exact Nat.le_antisymm le tries
  | succ n ih =>
    rw [widen]
    split
    · next boundary => exact Nat.le_antisymm le (le_of_isBoundary (isSome_dropBytes?_iff.1 boundary) lt)
    · next inside =>
      have other : i ≠ byteLength (a ++ [c]) := by
        rintro rfl
        exact inside (isSome_dropBytes?_iff.2 ⟨a ++ [c], b, by simp, rfl⟩)
      exact ih (by omega) (by omega) (by omega)

theorem slice_eq (a run rest : List Char) :
    slice (byteLength a) (byteLength (a ++ run)) (a ++ run ++ rest) = .ok run := by
  have le : byteLength a ≤ byteLength (a ++ run) := by
    rw [byteLength_append]
    exact Nat.le_add_right _ _
  rw [slice, if_pos le, List.append_assoc, dropBytes?_append, Option.bind_some, byteLength_append, Nat.add_sub_cancel_left,
    takeBytes?_append]
  rfl

theorem lastStart?_append (p : Char → Bool) (a b : List Char) :
    lastStart? p (a ++ b) = ((lastStart? p b).map (byteLength a + ·)).or (lastStart? p a) := by
  induction a with
  | nil => simp [lastStart?, byteLength]
  | cons c a ih =>
    rw [List.cons_append, lastStart?, ih, lastStart?, byteLength]
    cases lastStart? p b with
    | none => rfl
    | some n => simp [Nat.add_assoc]

theorem lastStart?_eq_none {p : Char → Bool} (none_such : ∀ c ∈ cs, p c = false) : lastStart? p cs = none := by
  induction cs with
  | nil => rfl
  | cons c cs ih =>
    rw [lastStart?, ih fun d mem => none_such d (List.mem_cons_of_mem _ mem), none_such c (List.mem_cons_self ..)]
    rfl

/-! ## The word in front of a slash -/

theorem isPlainWord_narrow (d : Char) (wide : 128 ≤ d.toNat) : isPlainWord d = false := by
  refine Bool.eq_false_iff.2 fun word => ?_
  have cases : (d.isAlphanum = true ∨ d = '_') ∨ d = '$' := by simpa [isPlainWord] using word
  rcases cases with (letter | rfl) | rfl
  · have codes := toNat_of_isAlphanum letter
    omega
  · exact absurd wide (by decide)
  · exact absurd wide (by decide)

theorem isAsciiSpace_narrow (d : Char) (wide : 128 ≤ d.toNat) : isAsciiSpace d = false := by
  have beyond (e : Char) (small : e.toNat < 128) : d ≠ e := by
    rintro rfl
    omega
  simp [isAsciiSpace, beyond ' ' (by decide), beyond '\t' (by decide), beyond '\n' (by decide), beyond '\x0c' (by decide),
    beyond '\x0d' (by decide)]

theorem mem_operators_iff : firstByte c ∈ operators ↔ c ∈ "(,=:[!&|?\x7b\x7d;+-*%<>~^".toList := by
  have all : ∀ d ∈ "(,=:[!&|?\x7b\x7d;+-*%<>~^".toList, d.toNat < 128 := by simp
  constructor
  · intro mem
    obtain ⟨d, mem, same⟩ := List.mem_map.1 mem
    rwa [(firstByte_eq_iff (all d mem)).1 same.symm]
  · exact fun mem => List.mem_map.2 ⟨c, mem, (firstByte_of_ascii (all c mem)).symm⟩

/-- The byte is the first of the last character that is no blank, or stands for the end of a pattern. -/
def LastMatches (past : List Char) (last : Option UInt8) : Prop :=
  match past.dropWhile isAsciiSpace with
  | [] => last = none
  | c :: _ => last = some (firstByte c) ∨ c = '/' ∧ last = some ')'.toUInt8

theorem LastMatches.spaces {blank past : List Char} {last : Option UInt8} (h : LastMatches past last)
    (spaces : ∀ c ∈ blank, isAsciiSpace c = true) : LastMatches (blank ++ past) last := by
  rwa [LastMatches, List.dropWhile_append_of_pos spaces]

theorem lastMatches_cons {past : List Char} (letter : isAsciiSpace c = false) :
    LastMatches (c :: past) (some (firstByte c)) := by
  rw [LastMatches, List.dropWhile_cons_of_neg (by simp [letter])]
  exact .inl rfl

/-- The last members that satisfy `p`. -/
theorem exists_lastRun {α : Type} (p : α → Bool) (s : List α) :
    ∃ front run, s = front ++ run ∧ (∀ x ∈ run, p x = true) ∧ ∀ x ∈ front.getLast?, p x = false := by
  by_cases other : ∃ x ∈ s, p x = false
  · obtain ⟨front, x, run, rfl, no, all⟩ := exists_last other
    exact ⟨front ++ [x], run, by simp, all, by simpa using no⟩
  · exact ⟨[], s, rfl, by simpa using other, by simp⟩

/-- What is in front of the last run, the last member first. -/
theorem dropWhile_reverse_append {α : Type} {p : α → Bool} {front run : List α} (all : ∀ x ∈ run, p x = true)
    (last : ∀ x ∈ front.getLast?, p x = false) : (front ++ run).reverse.dropWhile p = front.reverse := by
  rw [List.reverse_append, List.dropWhile_append_of_pos fun x mem => all x (List.mem_reverse.1 mem)]
  rcases List.eq_nil_or_concat' front with rfl | ⟨front, x, rfl⟩
  · rfl
  · have stays : p x = false := last x (by simp)
    simp [stays]

/-- Behind a word, a slash is judged by the word and by the character in front of it. -/
theorem slash_behind_word {past before word : List Char} (last : past.dropWhile isAsciiSpace = word.reverse ++ before)
    (some_word : word ≠ []) (plain : ∀ c ∈ word, isPlainWord c = true)
    (first : ∀ c ∈ before.head?, isPlainWord c = false) :
    slashOpensRegex past = (before.head? != some '.' && operandKeywords.contains (String.ofList word)) ∧
      slashCuts past = before.head?.any (1 < ·.utf8Size) := by
  obtain ⟨c, cs, turned⟩ := List.exists_cons_of_ne_nil (mt List.reverse_eq_nil_iff.1 some_word)
  have plain' : ∀ d ∈ word.reverse, isPlainWord d = true := fun d mem => plain d (List.mem_reverse.1 mem)
  have here : isPlainWord c = true := plain' c (by simp [turned])
  have rest : (c :: (cs ++ before)).dropWhile isPlainWord = before ∧
      (c :: (cs ++ before)).takeWhile isPlainWord = word.reverse := by
    rw [← List.cons_append, ← turned, List.dropWhile_append_of_pos plain', List.takeWhile_append_of_pos plain']
    cases before with
    | nil => simp
    | cons d before =>
      have no : isPlainWord d = false := first d rfl
      simp [no]
  rw [turned, List.cons_append] at last
  rw [slashOpensRegex, slashCuts, last]
  simp [here, rest.1, rest.2]

/-- A word is written as it is seen. -/
theorem written_word {word : List Cell} (plain : ∀ x ∈ word, isPlainWord x.face = true) :
    written word = word.map Cell.face := by
  induction word with
  | nil => rfl
  | cons x word ih =>
    rw [List.forall_mem_cons] at plain
    rw [written_cons, ih plain.2, List.map_cons]
    rcases image_cases x with ⟨same, own⟩ | ⟨-, blank, -⟩
    · rw [same, own]
      rfl
    · have plain := plain.1
      rw [blank] at plain
      cases plain

theorem isSpace_of_mem_written {blank : List Cell} (spaces : ∀ x ∈ blank, isAsciiSpace x.face = true) :
    ∀ c ∈ written blank, isSpace c = true := by
  intro c mem
  obtain ⟨x, here, inside⟩ := List.mem_flatMap.1 mem
  rcases image_cases x with ⟨same, own⟩ | ⟨same, -⟩
  · rw [same, List.mem_singleton] at inside
    rw [inside, ← own]
    exact isSpace_of_isAsciiSpace (spaces x here)
  · rw [same] at inside
    rw [List.eq_of_mem_replicate inside]
    rfl

/-- A mask ends with what is seen of its last cell. -/
theorem exists_written_concat (front : List Cell) (x : Cell) : ∃ before, written (front ++ [x]) = before ++ [x.face] := by
  rcases image_cases x with ⟨same, own⟩ | ⟨same, blank, -⟩
  · exact ⟨written front, by simp [same, own]⟩
  · obtain ⟨n, size⟩ := Nat.exists_eq_succ_of_ne_zero (Nat.ne_of_gt x.char.utf8Size_pos)
    refine ⟨written front ++ List.replicate n ' ', ?_⟩
    simp [same, blank, size, List.replicate_succ']

/-- The output ends with the word that is cut out of it: the cut is right if the character in front has one byte. -/
theorem startsRegex_word {front word blank : List Cell} {x : Char} (some_word : word ≠ [])
    (plain : ∀ x ∈ word, isPlainWord x.face = true) (spaces : ∀ x ∈ blank, isAsciiSpace x.face = true)
    (first : ∀ x ∈ front.getLast?, isPlainWord x.face = false) (here : isPlainWord x = true) :
    startsRegex (some (firstByte x)) (written (front ++ word ++ blank)) =
      if (front.map Cell.face).getLast?.any (1 < ·.utf8Size) then .error .cut
      else .ok ((front.map Cell.face).getLast? != some '.' &&
        operandKeywords.contains (String.ofList (word.map Cell.face))) := by
  have plain' : ∀ c ∈ word.map Cell.face, isPlainWord c = true := by simpa using plain
  have trimmed : trimEnd (written (front ++ word ++ blank)) = written front ++ word.map Cell.face := by
    obtain ⟨w, d, same⟩ := List.eq_nil_or_concat'  (word.map Cell.face) |>.resolve_left (by simpa using some_word)
    rw [written_append, written_append, written_word plain, same, trimEnd]
    have stays : isSpace d = false := isSpace_of_isPlainWord (plain' d (by simp [same]))
    rw [← List.append_assoc, List.append_assoc, List.singleton_append, dropWhileEnd_append_cons stays,
      dropWhileEnd_of_all (isSpace_of_mem_written spaces), List.append_assoc]
  have behind : lastStart? (fun c => !isPlainWord c) (written front ++ word.map Cell.face) =
      lastStart? (fun c => !isPlainWord c) (written front) := by
    rw [lastStart?_append, lastStart?_eq_none fun c mem => by simp [plain' c mem]]
    rfl
  rw [startsRegex, apply_ofUInt8_firstByte isPlainWord_narrow, if_pos here]
  simp only [trimmed, behind]
  rcases List.eq_nil_or_concat' front with rfl | ⟨front, y, rfl⟩
  · simp [lastStart?, dropBytes?, takeBytes?, checked, bind, Except.bind, pure, Except.pure]
  · obtain ⟨before, ends⟩ := exists_written_concat front y
    have other : isPlainWord y.face = false := first y (by simp)
    have start : lastStart? (fun c => !isPlainWord c) (before ++ [y.face]) = some (byteLength before) := by
      simp [lastStart?_append, lastStart?, other]
    rw [ends, start, Option.map_some, Option.getD_some]
    by_cases wide : 1 < y.face.utf8Size
    · have inside : dropBytes? (byteLength before + 1) (before ++ [y.face] ++ word.map Cell.face) = none := by
        rw [← Option.not_isSome_iff_eq_none, isSome_dropBytes?_iff, List.append_assoc, List.singleton_append]
        intro boundary
        have le := le_of_isBoundary boundary (Nat.lt_succ_self _)
        simp only [byteLength_append, byteLength] at le
        omega
      rw [inside, if_pos (by simpa using wide)]
      rfl
    · have one : byteLength before + 1 = byteLength (before ++ [y.face]) := by
        have size := y.face.utf8Size_pos
        simp only [byteLength_append, byteLength]
        omega
      rw [one, dropBytes?_append, takeBytes?_append, if_neg (by simpa using wide)]
      have period : ['.'].isSuffixOf (before ++ [y.face]) = (y.face == '.') := by
        simp [List.isSuffixOf, List.isPrefixOf, eq_comm]
      simp [checked, period, bind, Except.bind, pure, Except.pure, bne]

/-- A slash is judged as by the faces of the cells, unless the word in front of it is cut out through a character. -/
theorem startsRegex_written {last : Option UInt8} (h : LastMatches (cells.map Cell.face).reverse last) :
    startsRegex last (written cells) =
      if slashCuts (cells.map Cell.face).reverse then .error .cut
      else .ok (slashOpensRegex (cells.map Cell.face).reverse) := by
  obtain ⟨code, blank, rfl, spaces, last_code⟩ := exists_lastRun (fun x : Cell => isAsciiSpace x.face) cells
  obtain ⟨front, word, rfl, plain, first⟩ := exists_lastRun (fun x : Cell => isPlainWord x.face) code
  -- What is seen of the word and of what stands in front of it, the last character first.
  have seen : ((front ++ word ++ blank).map Cell.face).reverse.dropWhile isAsciiSpace =
      (word.map Cell.face).reverse ++ (front.map Cell.face).reverse := by
    rw [List.map_append, dropWhile_reverse_append (by simpa using spaces), List.map_append, List.reverse_append]
    rw [List.getLast?_map]
    intro c mem
    obtain ⟨x, last, rfl⟩ := Option.map_eq_some_iff.1 mem
    exact last_code x last
  have at_front : (front.map Cell.face).reverse.head? = (front.map Cell.face).getLast? := List.head?_reverse
  rw [LastMatches, seen] at h
  rcases List.eq_nil_or_concat' word with rfl | ⟨w, y, rfl⟩
  · rw [List.map_nil, List.reverse_nil, List.nil_append] at seen h
    rw [slashCuts, slashOpensRegex, seen]
    cases turned : (front.map Cell.face).reverse with
    | nil =>
      rw [turned] at h
      rw [h]
      rfl
    | cons c cs =>
      have other : isPlainWord c = false := by
        rw [turned] at at_front
        simp only [List.head?_cons, List.getLast?_map] at at_front
        obtain ⟨x, last_front, rfl⟩ := Option.map_eq_some_iff.1 at_front.symm
        exact first x last_front
      rw [turned] at h
      rcases h with own | ⟨rfl, bracket⟩
      · rw [own, startsRegex]
        simp only [apply_ofUInt8_firstByte isPlainWord_narrow, other, Bool.false_eq_true, if_false, Bool.false_and,
          List.contains_eq_mem, mem_operators_iff]
      · rw [bracket]
        rfl
  · have some_word : w ++ [y] ≠ [] := by simp
    have plain' : ∀ c ∈ (w ++ [y]).map Cell.face, isPlainWord c = true := by
      intro c mem
      obtain ⟨x, inside, rfl⟩ := List.mem_map.1 mem
      exact plain x inside
    have first' : ∀ c ∈ (front.map Cell.face).reverse.head?, isPlainWord c = false := by
      rw [at_front]
      simpa using first
    obtain ⟨opens, cuts⟩ := slash_behind_word seen (by simp) plain' first'
    have here : isPlainWord y.face = true := plain y (by simp)
    have own : last = some (firstByte y.face) := by
      rw [List.map_append, List.map_singleton, List.reverse_append, List.reverse_singleton, List.singleton_append,
        List.cons_append] at h
      rcases h with own | ⟨slash, -⟩
      · exact own
      · rw [slash] at here
        cases here
    rw [own, startsRegex_word some_word plain spaces first here, opens, cuts, at_front]

variable {shown : Bool} {m m' : MaskMode} {es es' : List Enclosure} {u : Unterminated}

/-! ## A reader of characters -/

/-- A reader of characters in the middle of a text. -/
structure Spot where
  /-- What has been read. -/
  cells : List Cell
  rest : List Char
  mode : MaskMode := .plain
  enclosures : List Enclosure := []

namespace Spot

/-- The state of the reader. -/
def state (p : Spot) : MaskState where
  mode := p.mode
  enclosures := p.enclosures
  past := (p.cells.map Cell.face).reverse
  byte := byteLength (chars p.cells)
  backtick := (lastStart? (· == '\x60') (chars p.cells)).getD 0

/-- What comes of reading on. -/
def answer (forms : LexicalForms) (p : Spot) : Except Halt (List Char) :=
  if cutsFrom forms p.state p.rest then .error .cut
  else match maskFrom forms p.state p.rest with
    | .error part => .error (.unterminated part)
    | .ok cells => .ok (written (p.cells ++ cells))

theorem state_after (cells : List Cell) (rest rest' : List Char) :
    (Spot.mk cells rest m es).state.after c shown m' es' =
      (Spot.mk (cells ++ [⟨c, shown⟩]) rest' m' es').state := by
  have tick : (lastStart? (· == '\x60') (chars cells ++ [c])).getD 0 =
      if c = '\x60' then byteLength (chars cells) else (lastStart? (· == '\x60') (chars cells)).getD 0 := by
    rw [lastStart?_append]
    by_cases here : c = '\x60' <;> simp [lastStart?, here]
  simp [state, MaskState.after, byteLength_append, byteLength, tick]

theorem answer_nil (cells : List Cell) (m : MaskMode) (es : List Enclosure) :
    (Spot.mk cells [] m es).answer forms =
      match (Spot.mk cells [] m es).state.unterminated? with
      | some part => .error (.unterminated part)
      | none => .ok (written cells) := by
  rw [answer, cutsFrom, if_neg Bool.false_ne_true, maskFrom]
  cases (Spot.mk cells [] m es).state.unterminated? with
  | some part => rfl
  | none => simp

theorem answer_cons
    (no_cut : (asksForWord forms (Spot.mk cells (c :: cs) m es).state c cs.head? &&
      slashCuts (Spot.mk cells (c :: cs) m es).state.past) = false)
    (step : maskStep forms (Spot.mk cells (c :: cs) m es).state c cs.head? = .ok (shown, m', es')) :
    (Spot.mk cells (c :: cs) m es).answer forms = (Spot.mk (cells ++ [⟨c, shown⟩]) cs m' es').answer forms := by
  have cuts : cutsFrom forms (Spot.mk cells (c :: cs) m es).state (c :: cs) =
      cutsFrom forms (Spot.mk (cells ++ [⟨c, shown⟩]) cs m' es').state cs := by
    rw [cutsFrom, no_cut, if_neg Bool.false_ne_true, step, ← state_after cells (c :: cs) cs]
    rfl
  have read : maskFrom forms (Spot.mk cells (c :: cs) m es).state (c :: cs) =
      (maskFrom forms (Spot.mk (cells ++ [⟨c, shown⟩]) cs m' es').state cs).map (⟨c, shown⟩ :: ·) := by
    rw [maskFrom, step, ← state_after cells (c :: cs) cs]
    rfl
  rw [answer, answer]
  simp only [cuts, read]
  cases maskFrom forms (Spot.mk (cells ++ [⟨c, shown⟩]) cs m' es').state cs with
  | error part => rfl
  | ok more => simp [Except.map]

theorem answer_error
    (no_cut : (asksForWord forms (Spot.mk cells (c :: cs) m es).state c cs.head? &&
      slashCuts (Spot.mk cells (c :: cs) m es).state.past) = false)
    (step : maskStep forms (Spot.mk cells (c :: cs) m es).state c cs.head? = .error u) :
    (Spot.mk cells (c :: cs) m es).answer forms = .error (.unterminated u) := by
  rw [answer]
  simp only [cutsFrom, maskFrom, no_cut, step, Bool.false_eq_true, if_false]
  rfl

theorem no_cut_of_mode (claimed : m ≠ .plain) (next : Option Char) :
    (asksForWord forms (Spot.mk cells rest m es).state c next && slashCuts (Spot.mk cells rest m es).state.past) =
      false := by
  have other : (Spot.mk cells rest m es).state.mode ≠ .plain := claimed
  simp [asksForWord, other]

theorem no_cut_of_char (other : c ≠ '/') (next : Option Char) :
    (asksForWord forms (Spot.mk cells rest m es).state c next && slashCuts (Spot.mk cells rest m es).state.past) =
      false := by
  simp [asksForWord, other]

end Spot

/-- Reading some characters, without another answer. -/
structure Reads (forms : LexicalForms) (p q : Spot) : Prop where
  answer : p.answer forms = q.answer forms
  fewer : q.rest.length < p.rest.length

namespace Reads

theorem trans {p q s : Spot} (h : Reads forms p q) (h' : Reads forms q s) : Reads forms p s :=
  ⟨h.answer.trans h'.answer, Nat.lt_trans h'.fewer h.fewer⟩

/-- Reading a character that a mode claims. -/
theorem claimed (other : m ≠ .plain)
    (step : maskStep forms (Spot.mk cells (c :: cs) m es).state c cs.head? = .ok (shown, m', es')) :
    Reads forms ⟨cells, c :: cs, m, es⟩ ⟨cells ++ [⟨c, shown⟩], cs, m', es'⟩ :=
  ⟨Spot.answer_cons (Spot.no_cut_of_mode other _) step, Nat.lt_succ_self _⟩

/-- Reading a character of a template. -/
theorem template (inside : es.head? = some .template) (step : stepTemplate es c cs.head? = (shown, m', es')) :
    Reads forms ⟨cells, c :: cs, .plain, es⟩ ⟨cells ++ [⟨c, shown⟩], cs, m', es'⟩ := by
  refine ⟨Spot.answer_cons ?_ ?_, Nat.lt_succ_self _⟩
  · simp [asksForWord, Spot.state, inside]
  · rw [maskStep]
    show Except.ok (if es.head? = some .template then stepTemplate es c cs.head? else _) = _
    rw [if_pos inside, step]

/-- Reading a character of code. -/
theorem code (outside : es.head? ≠ some .template)
    (no_cut : (asksForWord forms (Spot.mk cells (c :: cs) .plain es).state c cs.head? &&
      slashCuts (Spot.mk cells (c :: cs) .plain es).state.past) = false)
    (step : stepCode forms (Spot.mk cells (c :: cs) .plain es).state c cs.head? = (shown, m', es')) :
    Reads forms ⟨cells, c :: cs, .plain, es⟩ ⟨cells ++ [⟨c, shown⟩], cs, m', es'⟩ := by
  refine ⟨Spot.answer_cons no_cut ?_, Nat.lt_succ_self _⟩
  rw [maskStep]
  show Except.ok (if es.head? = some .template then _ else stepCode forms _ c cs.head?) = _
  rw [if_neg outside, step]

end Reads

/-! ## Both readers at one place -/

/-- A reader of bytes that has written out the cells, in front of the rest of the text. -/
structure At (text : List Char) (cells : List Cell) (rest : List Char) (r : Reader) : Prop where
  whole : text = chars cells ++ rest
  offset : r.offset = byteLength (chars cells)
  out : r.out = written cells

/-- Blanks in place of the next characters. -/
def Reader.blanked (r : Reader) (run : List Char) : Reader :=
  { r with offset := r.offset + byteLength run, out := r.out ++ blanks run }

theorem utf8Size_of_ascii (ascii : c.toNat < 128) : c.utf8Size = 1 := by
  rw [← String.length_utf8EncodeChar, utf8EncodeChar_of_ascii ascii]
  rfl

theorem chars_append (a b : List Cell) : chars (a ++ b) = chars a ++ chars b := List.map_append

theorem chars_unseen (run : List Char) : chars (run.map unseen) = run := by
  rw [chars, List.map_map]
  exact List.map_id run

theorem blanks_eq (run : List Char) : blanks run = written (run.map unseen) := by
  rw [blanks, written, List.flatMap_map]
  refine List.flatMap_congr fun c _ => ?_
  by_cases feed : c = '\n' <;> simp [Cell.image, feed]

namespace At

theorem reframe (h : At text cells rest r) (frames : List Enclosure) (last : Option UInt8) :
    At text cells rest { r with frames := frames, last := last } := ⟨h.whole, h.offset, h.out⟩

/-- The next byte is the first one of the next character. -/
theorem byte (h : At text cells rest r) : (bytes text)[r.offset]? = rest.head?.map firstByte := by
  rw [h.whole, h.offset]
  cases rest with
  | nil => rw [List.append_nil, getElem?_bytes_end]; rfl
  | cons c rest => exact getElem?_bytes _ c rest

/-- The byte behind a character of one byte. -/
theorem next (h : At text cells (c :: cs) r) (ascii : c.toNat < 128) :
    (bytes text)[r.offset + 1]? = cs.head?.map firstByte := by
  have size : r.offset + 1 = byteLength (chars cells ++ [c]) := by
    rw [h.offset, byteLength_append, byteLength, utf8Size_of_ascii ascii, byteLength]
  have whole : text = (chars cells ++ [c]) ++ cs := by rw [h.whole]; simp
  rw [whole, size]
  cases cs with
  | nil => rw [List.append_nil, getElem?_bytes_end]; rfl
  | cons d cs => exact getElem?_bytes _ d cs

theorem push (h : At text cells (c :: cs) r) (ascii : c.toNat < 128) :
    At text (cells ++ [code c]) cs (r.push (firstByte c)) := by
  refine ⟨?_, ?_, ?_⟩
  · rw [h.whole]
    simp
  · show r.offset + 1 = _
    rw [h.offset, chars_append, byteLength_append]
    simp [byteLength, utf8Size_of_ascii ascii]
  · show r.out ++ [Char.ofUInt8 (firstByte c)] = _
    rw [h.out, ofUInt8_firstByte ascii, written_append]
    rfl

theorem blanked (h : At text cells (run ++ rest) r) : At text (cells ++ run.map unseen) rest (r.blanked run) := by
  refine ⟨?_, ?_, ?_⟩
  · rw [h.whole, chars_append, chars_unseen, List.append_assoc]
  · show r.offset + byteLength run = _
    rw [h.offset, chars_append, chars_unseen, byteLength_append]
  · show r.out ++ blanks run = _
    rw [h.out, blanks_eq, written_append]

/-- So many bytes end in the last character of a part, or behind it at the end of the text: then the part is blanked. -/
theorem blank {front : List Char} (h : At text cells (front ++ [c] ++ rest) r) (enters : byteLength front < n)
    (stays : n ≤ byteLength (front ++ [c]) ∨ rest = []) : r.blank text n = .ok (r.blanked (front ++ [c])) := by
  have whole : text = (chars cells ++ front) ++ c :: rest := by rw [h.whole]; simp
  have size : byteLength text = byteLength (chars cells) + byteLength (front ++ [c]) + byteLength rest := by
    rw [h.whole, byteLength_append, byteLength_append, Nat.add_assoc]
  have part : byteLength (front ++ [c]) = byteLength front + c.utf8Size := by simp [byteLength_append, byteLength]
  have pos := c.utf8Size_pos
  have ends : byteLength (chars cells ++ front ++ [c]) = r.offset + byteLength (front ++ [c]) := by
    rw [List.append_assoc, byteLength_append, h.offset]
  have lt : byteLength (chars cells ++ front) < min (r.offset + n) (byteLength text) := by
    rw [byteLength_append, h.offset]
    omega
  have le : min (r.offset + n) (byteLength text) ≤ byteLength (chars cells ++ front ++ [c]) := by
    rw [ends]
    rcases stays with fits | rfl
    · omega
    · rw [h.offset]
      simp only [byteLength] at size
      omega
  have stop : widen text (byteLength text) (min (r.offset + n) (byteLength text)) =
      r.offset + byteLength (front ++ [c]) := by
    rw [← ends]
    have tries : byteLength (chars cells ++ front ++ [c]) ≤ min (r.offset + n) (byteLength text) + byteLength text := by
      rw [ends, h.offset]
      omega
    generalize min (r.offset + n) (byteLength text) = i at lt le tries
    generalize byteLength text = m at tries
    rw [whole]
    exact widen_eq lt le tries
  have cut : slice r.offset (r.offset + byteLength (front ++ [c])) text = .ok (front ++ [c]) := by
    have cut := slice_eq (chars cells) (front ++ [c]) rest
    rwa [byteLength_append, List.append_assoc (chars cells), ← h.whole, ← h.offset] at cut
  rw [Reader.blank, stop]
  show (slice r.offset (r.offset + byteLength (front ++ [c])) text >>= _) = _
  rw [cut]
  rfl

/-- One character is blanked. -/
theorem blank_char (h : At text cells (c :: cs) r) : r.blank text 1 = .ok (r.blanked [c]) :=
  @blank text cs cells c r 1 [] h (by simp [byteLength]) (.inl (by
    have size := c.utf8Size_pos
    simp only [List.nil_append, byteLength]
    omega))

end At

/-- A backslash is blanked with the character behind it, if there is one. -/
theorem blank_escape (h : At text cells ('\\' :: cs) r)
    (first : Reads forms ⟨cells, '\\' :: cs, m, es⟩ ⟨cells ++ [unseen '\\'], cs, .escaped m, es⟩)
    (ends : ∀ cells, (Spot.mk cells [] (.escaped m) es).state.unterminated? =
      (Spot.mk cells [] m es).state.unterminated?) :
    ∃ run rest, r.blank text 2 = .ok (r.blanked run) ∧ '\\' :: cs = run ++ rest ∧
      Reads forms ⟨cells, '\\' :: cs, m, es⟩ ⟨cells ++ run.map unseen, rest, m, es⟩ := by
  cases cs with
  | nil =>
    refine ⟨['\\'], [], @At.blank text [] cells '\\' r 2 [] h (by decide) (.inr rfl), rfl, ?_⟩
    refine ⟨first.answer.trans ?_, first.fewer⟩
    rw [Spot.answer_nil, ends, ← Spot.answer_nil]
    rfl
  | cons d cs =>
    refine ⟨['\\', d], cs, ?_, rfl, ?_⟩
    · refine @At.blank text cs cells d r 2 ['\\'] h (by decide) (.inl ?_)
      have size := d.utf8Size_pos
      have one : '\\'.utf8Size = 1 := rfl
      simp only [List.cons_append, List.nil_append, byteLength, one]
      omega
    · have second : Reads forms ⟨cells ++ [unseen '\\'], d :: cs, .escaped m, es⟩
          ⟨cells ++ [unseen '\\'] ++ [unseen d], cs, m, es⟩ := .claimed (by simp) rfl
      rw [List.append_assoc] at second
      exact first.trans second

end Codewright.Text.Bytewise
