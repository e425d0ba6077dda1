import Mathlib.Data.List.Forall2
import Codewright.Proofs.Source.Place
import Codewright.Proofs.Text.Scan

/-!
# Bytes of texts and of masks

* `bytes cs` – the UTF-8 encoding of a text; `firstByte c` – the byte with which a character begins, from which its size and
  its ASCII class can be told;
* `written cells` – a mask written out;
* `KeepsOffsets source m` – every offset in `m` means the same in the source; `keepsOffsets_written`: so it is in a mask.
-/

namespace Codewright.Text

open Source

variable {c d : Char} {b : UInt8} {cs before rest : List Char} {cells : List Cell}

/-! ## Bytes -/

/-- The bytes of a text. -/
def bytes (cs : List Char) : List UInt8 := cs.flatMap String.utf8EncodeChar

theorem bytes_append (a b : List Char) : bytes (a ++ b) = bytes a ++ bytes b := List.flatMap_append

theorem bytes_cons (c : Char) (cs : List Char) : bytes (c :: cs) = String.utf8EncodeChar c ++ bytes cs := rfl

theorem length_bytes (cs : List Char) : (bytes cs).length = byteLength cs := by
  induction cs with
  | nil => rfl
  | cons c cs ih => rw [bytes_cons, List.length_append, ih, String.length_utf8EncodeChar, byteLength]

/-- The byte with which a character begins. -/
def firstByte (c : Char) : UInt8 := (String.utf8EncodeChar c).head String.utf8EncodeChar_ne_nil

/-- At a boundary stands the first byte of the next character. -/
theorem getElem?_bytes (before : List Char) (c : Char) (rest : List Char) :
    (bytes (before ++ c :: rest))[byteLength before]? = some (firstByte c) := by
  obtain ⟨b, bs, encoded⟩ := List.exists_cons_of_ne_nil (String.utf8EncodeChar_ne_nil (c := c))
  rw [bytes_append, List.getElem?_append_right (Nat.le_of_eq (length_bytes before)), length_bytes, Nat.sub_self, bytes_cons]
  simp [firstByte, encoded]

theorem getElem?_bytes_end (cs : List Char) : (bytes cs)[byteLength cs]? = none :=
  List.getElem?_eq_none (Nat.le_of_eq (length_bytes cs))

theorem utf8EncodeChar_of_ascii (ascii : c.toNat < 128) : String.utf8EncodeChar c = [c.toUInt8] := by
  have le : c.val.toNat ≤ 127 := Nat.le_of_lt_succ ascii
  rw [String.utf8EncodeChar, if_pos le]
  rfl

/-- The bytes of a character that is not in ASCII are not in ASCII, and the first of them says how many there are. -/
theorem exists_utf8EncodeChar (wide : 128 ≤ c.toNat) : ∃ b bs, String.utf8EncodeChar c = b :: bs ∧
    (∀ x ∈ b :: bs, 128 ≤ x.toNat) ∧ (192 ≤ b.toNat ∧ b.toNat ≤ 223 ∧ bs.length = 1 ∨
      224 ≤ b.toNat ∧ b.toNat ≤ 239 ∧ bs.length = 2 ∨ 240 ≤ b.toNat ∧ bs.length = 3) := by
  have valid : c.val.toNat < 1114112 := by
    rcases c.valid with low | ⟨-, high⟩
    · exact Nat.lt_trans low (by decide)
    · exact high
  have one : ¬c.val.toNat ≤ 127 := Nat.not_le.2 wide
  by_cases two : c.val.toNat ≤ 2047
  · refine ⟨_, _, by rw [String.utf8EncodeChar, if_neg one, if_pos two], ?_, ?_⟩
    · simp
      omega
    · simp
      omega
  by_cases three : c.val.toNat ≤ 65535
  · refine ⟨_, _, by rw [String.utf8EncodeChar, if_neg one, if_neg two, if_pos three], ?_, ?_⟩
    · simp
      omega
    · simp
      omega
  · refine ⟨_, _, by rw [String.utf8EncodeChar, if_neg one, if_neg two, if_neg three], ?_, ?_⟩
    · simp
      omega
    · simp
      omega

theorem firstByte_of_ascii (ascii : c.toNat < 128) : firstByte c = c.toUInt8 := by
  simp [firstByte, utf8EncodeChar_of_ascii ascii]

theorem le_firstByte (wide : 128 ≤ c.toNat) : 192 ≤ (firstByte c).toNat := by
  obtain ⟨b, bs, encoded, -, sizes⟩ := exists_utf8EncodeChar wide
  have first : firstByte c = b := by simp [firstByte, encoded]
  rw [first]
  omega

theorem toNat_toUInt8_of_ascii (ascii : c.toNat < 128) : c.toUInt8.toNat = c.toNat := by
  change c.toNat % 256 = c.toNat
  exact Nat.mod_eq_of_lt (by omega)

/-- An ASCII character is told by its first byte. -/
theorem firstByte_eq_iff (ascii : d.toNat < 128) : firstByte c = d.toUInt8 ↔ c = d := by
  constructor
  · intro same
    have same : (firstByte c).toNat = d.toNat := by rw [same, toNat_toUInt8_of_ascii ascii]
    by_cases ascii' : c.toNat < 128
    · rw [firstByte_of_ascii ascii', toNat_toUInt8_of_ascii ascii'] at same
      exact Char.toNat_inj.1 same
    · have wide := le_firstByte (Nat.not_lt.1 ascii')
      omega
  · rintro rfl
    exact firstByte_of_ascii ascii

/-! ## Masks -/

/-- A mask written out. -/
def written (cells : List Cell) : List Char := cells.flatMap Cell.image

@[simp] theorem written_nil : written [] = [] := rfl

@[simp] theorem written_append (a b : List Cell) : written (a ++ b) = written a ++ written b := List.flatMap_append

theorem written_cons (cell : Cell) (cells : List Cell) : written (cell :: cells) = cell.image ++ written cells := rfl

@[simp] theorem written_singleton (cell : Cell) : written [cell] = cell.image := by simp [written]

/-- What stands for a cell is its own character, or as many spaces as that has bytes. -/
theorem image_cases (cell : Cell) : cell.image = [cell.char] ∧ cell.face = cell.char ∨
    cell.image = List.replicate cell.char.utf8Size ' ' ∧ cell.face = ' ' ∧ cell.char ≠ '\n' := by
  unfold Cell.image Cell.face
  split_ifs with shown
  · exact .inl ⟨rfl, rfl⟩
  · refine .inr ⟨rfl, rfl, fun feed => shown ?_⟩
    simp [feed]

theorem byteLength_replicate (n : Nat) (c : Char) : byteLength (List.replicate n c) = n * c.utf8Size := by
  induction n with
  | zero => simp [byteLength]
  | succ n ih => rw [List.replicate_succ, byteLength, ih, Nat.succ_mul, Nat.add_comm]

theorem byteLength_image (cell : Cell) : byteLength cell.image = cell.char.utf8Size := by
  rcases image_cases cell with ⟨same, -⟩ | ⟨same, -⟩
  · simp [same, byteLength]
  · rw [same, byteLength_replicate]
    exact Nat.mul_one _

/-- The mask has as many bytes as the text. -/
theorem byteLength_written (cells : List Cell) : byteLength (written cells) = byteLength (chars cells) := by
  induction cells with
  | nil => rfl
  | cons cell cells ih =>
    show _ = cell.char.utf8Size + byteLength (chars cells)
    rw [written_cons, byteLength_append, byteLength_image, ih]

/-- A byte of a mask, and the byte of the text that it stands for. -/
def StandsFor (b b' : UInt8) : Prop := (b = ' '.toUInt8 ∨ b = b') ∧ (b = '\n'.toUInt8 ↔ b' = '\n'.toUInt8)

theorem StandsFor.refl (b : UInt8) : StandsFor b b := ⟨.inr rfl, Iff.rfl⟩

theorem standsFor_image (cell : Cell) : List.Forall₂ StandsFor (bytes cell.image) (String.utf8EncodeChar cell.char) := by
  rcases image_cases cell with ⟨same, -⟩ | ⟨same, -, no_feed⟩
  · rw [same, bytes, List.flatMap_singleton]
    exact List.forall₂_same.2 fun b _ => .refl b
  · have no_byte (b : UInt8) (hb : b ∈ String.utf8EncodeChar cell.char) : b ≠ '\n'.toUInt8 := by
      rintro rfl
      by_cases ascii : cell.char.toNat < 128
      · rw [utf8EncodeChar_of_ascii ascii, List.mem_singleton, ← firstByte_of_ascii ascii, eq_comm,
          firstByte_eq_iff (by decide)] at hb
        exact no_feed hb
      · obtain ⟨b, bs, encoded, all, -⟩ := exists_utf8EncodeChar (Nat.not_lt.1 ascii)
        rw [encoded] at hb
        exact absurd (all _ hb) (by decide)
    have spaces : bytes cell.image = List.replicate (String.utf8EncodeChar cell.char).length ' '.toUInt8 := by
      have one : String.utf8EncodeChar ' ' = [' '.toUInt8] := rfl
      rw [same, bytes, String.length_utf8EncodeChar]
      simp [List.flatMap_replicate, one]
    rw [spaces, List.forall₂_iff_get]
    refine ⟨List.length_replicate, fun i hi hi' => ?_⟩
    have inside := no_byte _ (List.get_mem (String.utf8EncodeChar cell.char) ⟨i, hi'⟩)
    have ne : ' '.toUInt8 ≠ '\n'.toUInt8 := by decide
    simpa [StandsFor, ne] using inside

/-- Byte by byte, a mask stands for its text. -/
theorem standsFor_written (cells : List Cell) : List.Forall₂ StandsFor (bytes (written cells)) (bytes (chars cells)) := by
  induction cells with
  | nil => exact .nil
  | cons cell cells ih =>
    show List.Forall₂ StandsFor _ (String.utf8EncodeChar cell.char ++ bytes (chars cells))
    rw [written_cons, bytes_append]
    exact List.rel_append (standsFor_image cell) ih

/-- A character other than the space has its own cell. -/
theorem exists_cell_of_written {behind : List Char} (split : written cells = before ++ c :: behind) (letter : c ≠ ' ') :
    ∃ front back shown, cells = front ++ ⟨c, shown⟩ :: back ∧ before = written front := by
  induction cells generalizing before with
  | nil => simp at split
  | cons cell cells ih =>
    rw [written_cons] at split
    rcases List.append_eq_append_iff.1 split with ⟨more, rfl, rest⟩ | ⟨inside, image, rest⟩
    · obtain ⟨front, back, shown, rfl, rfl⟩ := ih rest
      exact ⟨cell :: front, back, shown, rfl, rfl⟩
    · cases inside with
      | nil =>
        obtain ⟨front, back, shown, rfl, none_before⟩ := @ih [] rest.symm
        refine ⟨cell :: front, back, shown, rfl, ?_⟩
        rw [written_cons, ← none_before, image, List.append_nil, List.append_nil]
      | cons d inside =>
        obtain ⟨rfl, -⟩ := List.cons.inj rest
        rcases image_cases cell with ⟨same, -⟩ | ⟨same, -⟩
        · rw [same, eq_comm, List.append_eq_singleton_iff] at image
          obtain ⟨rfl, one⟩ | ⟨-, none⟩ := image
          · obtain ⟨rfl, -⟩ := List.cons.inj one
            exact ⟨[], cells, cell.shown, rfl, rfl⟩
          · cases none
        · have mem : c ∈ List.replicate cell.char.utf8Size ' ' := by
            rw [← same, image]
            exact List.mem_append_right _ (List.mem_cons_self ..)
          exact absurd (List.eq_of_mem_replicate mem) letter

/-! ## Offsets -/

/-- The offset stands directly in front of or directly behind a character of the mask other than the space. -/
def TouchesLetter (m : List Char) (i : Nat) : Prop :=
  ∃ before c behind, m = before ++ c :: behind ∧ c ≠ ' ' ∧ (i = byteLength before ∨ i = byteLength (before ++ [c]))

/-- Every offset in `m` means the same in the source: both have the same bytes, but for spaces in `m` where the source has
something else than the end of a line, and where something else than a space stands in `m`, a character of the source begins. So
the source can be sliced between any two offsets that touch something else than a space in `m`. -/
structure KeepsOffsets (source : String) (m : List Char) : Prop where
  size : (bytes m).length = (bytes source.toList).length
  byte : ∀ (j : Nat) (b : UInt8), (bytes m)[j]? = some b → b = ' '.toUInt8 ∨ (bytes source.toList)[j]? = some b
  feed : ∀ j : Nat, (bytes m)[j]? = some '\n'.toUInt8 ↔ (bytes source.toList)[j]? = some '\n'.toUInt8
  boundary : ∀ before c behind, m = before ++ c :: behind → c ≠ ' ' → IsBoundary source.toList (byteLength before)
  slice : ∀ i j, i ≤ j → TouchesLetter m i → TouchesLetter m j → ∃ text, (⟨i, j⟩ : Span).slice source = some text

/-- In front of a character other than the space and behind it, the text has boundaries. -/
theorem isBoundary_of_written {behind : List Char} (split : written cells = before ++ c :: behind) (letter : c ≠ ' ') :
    IsBoundary (chars cells) (byteLength before) ∧ IsBoundary (chars cells) (byteLength (before ++ [c])) := by
  obtain ⟨front, back, shown, rfl, rfl⟩ := exists_cell_of_written split letter
  refine ⟨⟨chars front, chars (⟨c, shown⟩ :: back), List.map_append, byteLength_written front⟩, chars front ++ [c],
    chars back, ?_, ?_⟩
  · simp
  · rw [byteLength_append, byteLength_append, byteLength_written]

/-- What is written out of the cells of a text keeps its offsets. -/
theorem keepsOffsets_written {source : String} (same : chars cells = source.toList) :
    KeepsOffsets source (written cells) := by
  have stands := standsFor_written cells
  rw [same] at stands
  have touches {i : Nat} (h : TouchesLetter (written cells) i) : IsBoundary source.toList i := by
    obtain ⟨before, c, behind, split, letter, rfl | rfl⟩ := h
    · exact same ▸ (isBoundary_of_written split letter).1
    · exact same ▸ (isBoundary_of_written split letter).2
  exact {
    size := stands.length_eq
    byte := by
      intro j b here
      obtain ⟨inside, rfl⟩ := List.getElem?_eq_some_iff.1 here
      have inside' := stands.length_eq ▸ inside
      rcases (stands.get inside inside').1 with space | own
      · exact .inl space
      · exact .inr (List.getElem?_eq_some_iff.2 ⟨inside', own.symm⟩)
    feed := by
      intro j
      by_cases inside : j < (bytes (written cells)).length
      · have inside' := stands.length_eq ▸ inside
        rw [List.getElem?_eq_getElem inside, List.getElem?_eq_getElem inside', Option.some.injEq, Option.some.injEq]
        exact (stands.get inside inside').2
      · rw [List.getElem?_eq_none (Nat.not_lt.1 inside), List.getElem?_eq_none (stands.length_eq ▸ Nat.not_lt.1 inside)]
    boundary := fun before c behind split letter => same ▸ (isBoundary_of_written split letter).1
    slice := by
      intro i j le start stop
      obtain ⟨before, text, behind, -, -, sliced⟩ :=
        @Span.exists_of_isBoundary source ⟨i, j⟩ le (touches start) (touches stop)
      exact ⟨_, sliced⟩ }

end Codewright.Text
