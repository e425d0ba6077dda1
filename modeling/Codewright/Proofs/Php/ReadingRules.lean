import Mathlib.Data.List.Forall2
import Codewright.Php.Parser
import Codewright.Proofs.Php.Reading

/-!
# Reading tokens that are known

Rules for readers in front of tokens that are known one by one: single tokens, lists with separators, and readers whose
value depends on more than the tokens.

* `Begins P fs` – the first token satisfies `P`;
* `Reads.tryToken_true`, `Reads.expectIdent`, … – single tokens;
* `commaFaces`, `behindFaces` – the tokens of lists; `Reads.commaListUntil`, `Reads.behind`, … – reading lists;
* `Fails.expect`, `Fails.behind`, … – tokens at which readers fail;
* `Finds p fs P rest` – in front of the tokens `fs ++ rest` the reader gives something that satisfies `P` and leaves
  `rest`; comments may have a part in what it gives, but not in `P`.
-/

namespace Codewright.Php

open Source

variable {α β : Type}

/-- The tokens begin with one that satisfies `P`. -/
def Begins (P : Face → Prop) (fs : List Face) : Prop := ∃ f gs, fs = f :: gs ∧ P f

theorem Begins.cons {P : Face → Prop} {f : Face} (h : P f) (fs : List Face) : Begins P (f :: fs) := ⟨f, fs, rfl, h⟩

theorem Begins.append {P : Face → Prop} {fs : List Face} (h : Begins P fs) (rest : List Face) :
    Begins P (fs ++ rest) := by
  obtain ⟨f, gs, rfl, holds⟩ := h
  exact .cons holds _

theorem Begins.mono {P Q : Face → Prop} {fs : List Face} (h : Begins P fs) (imp : ∀ f, P f → Q f) : Begins Q fs := by
  obtain ⟨f, gs, rfl, holds⟩ := h
  exact .cons (imp f holds) gs

namespace Reads

variable {p : Parse α} {f : Face} {fs gs rest : List Face} {x : α} {k : TokenKind} {text word : String}

/-- The first reader reads nothing. -/
theorem nil_bind {h : α → Parse β} {y : β} (hp : Reads p [] x (gs ++ rest)) (hf : Reads (h x) gs y rest) :
    Reads (p >>= h) gs y rest := by
  have both : Reads (p >>= h) ([] ++ gs) y rest := bind hp hf
  exact both

theorem fmap (h : Reads p fs x rest) (g : α → β) : Reads (g <$> p) fs (g x) rest := by
  intro s hs
  obtain ⟨s', read, left⟩ := h s hs
  refine ⟨s', ?_, left⟩
  change (p s).bind (fun r => .ok (g r.1, r.2)) = _
  rw [read]
  rfl

/-- The first reader reads one token. -/
theorem cons_bind {h : α → Parse β} {y : β} (hp : Reads p [f] x (gs ++ rest)) (hf : Reads (h x) gs y rest) :
    Reads (p >>= h) (f :: gs) y rest := by
  have both : Reads (p >>= h) ([f] ++ gs) y rest := bind hp hf
  exact both

/-! ## Single tokens -/

theorem advance (more : k ≠ .eof) {F : Token → α} (h : ∀ t : Token, t.text = text → F t = x) :
    Reads (do return F (← Parse.advance)) [(k, text)] x rest :=
  Reads.advance_bind more fun t same => by
    rw [h t same]
    exact .pure x rest

/-- What is read and dropped. -/
theorem skip (more : k ≠ .eof) {g : Parse α} (h : Reads g fs x rest) :
    Reads (do
      let _ ← Parse.advance
      g) ((k, text) :: fs) x rest :=
  Reads.advance_bind more fun _ _ => h

theorem expect (more : k ≠ .eof) {g : Parse α} (h : Reads g fs x rest) :
    Reads (do
      let _ ← Parse.expect k
      g) ((k, text) :: fs) x rest :=
  Reads.expect_bind more fun _ _ => h

theorem expectKeyword {g : Parse α} (here : Face.isKeyword f word = true) (h : Reads g fs x rest) :
    Reads (do
      let _ ← Parse.expectKeyword word
      g) (f :: fs) x rest := by
  intro s hs
  have more : f.1 ≠ .eof := by
    intro eof
    simp [Face.isKeyword, eof] at here
  have same : Parse.expectKeyword word s = Parse.advance s := by
    change (if s.atKeyword word then Parse.advance else Parse.failExpected _) s = _
    rw [Stream.atKeyword_eq hs, if_pos here]
  obtain ⟨s', read, left⟩ := skip more h s hs
  refine ⟨s', ?_, left⟩
  change (Parse.expectKeyword word s).bind (fun r => g r.2) = _
  rw [same]
  exact read

theorem expectIdent (what : String) : Reads (Parse.expectIdent what) [(.ident, text)] text rest := by
  refine Reads.get_bind fun s hs => ?_
  rw [Stream.at_eq hs, if_pos (by simp)]
  exact advance (by decide) fun _ same => same

theorem expectVariable : Reads Parse.expectVariable [(.variable, text)] text rest := by
  refine Reads.get_bind fun s hs => ?_
  rw [Stream.at_eq hs, if_pos (by simp)]
  exact advance (by decide) fun _ same => same

theorem tryToken_true (more : k ≠ .eof) : Reads (Parse.tryToken k) [(k, text)] true rest := by
  refine Reads.get_bind fun s hs => ?_
  rw [Stream.at_eq hs, if_pos (by simp)]
  exact skip more (.pure true rest)

theorem tryToken_false (other : f.1 ≠ k) : Reads (Parse.tryToken k) [] false (f :: rest) := by
  refine Reads.get_bind fun s hs => ?_
  rw [Stream.at_eq hs, if_neg (by simpa using other)]
  exact .pure false _

theorem tryKeyword_true (here : Face.isKeyword f word = true) : Reads (Parse.tryKeyword word) [f] true rest := by
  have more : f.1 ≠ .eof := by
    intro eof
    simp [Face.isKeyword, eof] at here
  refine Reads.get_bind fun s hs => ?_
  rw [Stream.atKeyword_eq hs, if_pos here]
  exact skip more (.pure true rest)

theorem tryKeyword_false (other : Face.isKeyword f word = false) :
    Reads (Parse.tryKeyword word) [] false (f :: rest) := by
  refine Reads.get_bind fun s hs => ?_
  rw [Stream.atKeyword_eq hs, if_neg (by simp [other])]
  exact .pure false _

theorem expectSemicolon : Reads Parse.expectSemicolon [(.semicolon, ";")] () rest :=
  Reads.bind_nil (f := fun b : Bool => if b then Pure.pure () else do
    if (← get).at_ .closeTag then return () else Parse.failExpected "';'") (tryToken_true (by decide)) (.pure () rest)

/-- There are no attributes to read. -/
theorem attributes_nil (other : Begins (·.1 ≠ .attributeGroup) rest) : Reads Parse.attributes [] [] rest := by
  obtain ⟨f, gs, rfl, other⟩ := other
  refine get_bind fun s _ => collectUpTo_stop (Reads.get_bind fun s hs => ?_) _
  rw [Stream.at_eq hs, beq_eq_false_iff_ne.2 other]
  exact .pure _ _

/-! ## Optional parts -/

theorem afterToken_some (more : k ≠ .eof) (h : Reads p fs x rest) :
    Reads (Parse.afterToken k p) ((k, text) :: fs) (some x) rest :=
  Reads.bind (tryToken_true more) (h.map some)

theorem afterToken_none (other : f.1 ≠ k) : Reads (Parse.afterToken k p) [] none (f :: rest) :=
  Reads.bind_nil (tryToken_false other) (.pure none _)

theorem afterKeyword_some (here : Face.isKeyword f word = true) (h : Reads p fs x rest) :
    Reads (Parse.afterKeyword word p) (f :: fs) (some x) rest :=
  Reads.bind (tryKeyword_true here) (h.map some)

theorem afterKeyword_none (other : Face.isKeyword f word = false) :
    Reads (Parse.afterKeyword word p) [] none (f :: rest) :=
  Reads.bind_nil (tryKeyword_false other) (.pure none _)

theorem enclosedBy {opening closing : TokenKind} {text' : String} (more : opening ≠ .eof) (more' : closing ≠ .eof)
    (h : Reads p fs x ((closing, text') :: rest)) :
    Reads (Parse.enclosedBy opening closing p) ((opening, text) :: (fs ++ [(closing, text')])) x rest :=
  expect more (Reads.bind h (expect more' (.pure x rest)))

/-! ## Loops -/

theorem collect {step : Parse (List α × Bool)} {xs : List α}
    (h : ∀ n, fs.length < n → Reads (Parse.collectUpTo step n) fs xs rest) : Reads (Parse.collect step) fs xs rest := by
  refine Reads.get_bind fun s hs => h _ ?_
  rw [← Stream.length_faces, hs, List.length_append]
  omega

theorem refineUpTo_stop {step : α → Parse (Option α)} (h : Reads (step x) fs none rest) (n : Nat) :
    Reads (Parse.refineUpTo step (n + 1) x) fs x rest :=
  Reads.bind_nil h (.pure x rest)

theorem refineUpTo_more {step : α → Parse (Option α)} {y z : α} {n : Nat} (h : Reads (step x) fs (some y) (gs ++ rest))
    (tail : Reads (Parse.refineUpTo step n y) gs z rest) :
    Reads (Parse.refineUpTo step (n + 1) x) (fs ++ gs) z rest :=
  Reads.bind h tail

theorem refine {step : α → Parse (Option α)} {y : α}
    (h : ∀ n, fs.length < n → Reads (Parse.refineUpTo step n x) fs y rest) : Reads (Parse.refine step x) fs y rest := by
  refine Reads.get_bind fun s hs => h _ ?_
  rw [← Stream.length_faces, hs, List.length_append]
  omega

end Reads

/-! ## Lists -/

/-- The tokens of items, each behind the same token. -/
def behindFaces (separator : Face) (items : List (List Face)) : List Face := items.flatMap (separator :: ·)

/-- The tokens of items with commas between them. -/
def commaFaces : List (List Face) → List Face
  | [] => []
  | fs :: fss => fs ++ behindFaces (.comma, ",") fss

@[simp] theorem behindFaces_nil (separator : Face) : behindFaces separator [] = [] := rfl

@[simp] theorem behindFaces_cons (separator : Face) (fs : List Face) (fss : List (List Face)) :
    behindFaces separator (fs :: fss) = separator :: (fs ++ behindFaces separator fss) := rfl

theorem commaFaces_cons_cons (fs fs' : List Face) (fss : List (List Face)) :
    commaFaces (fs :: fs' :: fss) = fs ++ (.comma, ",") :: commaFaces (fs' :: fss) := rfl

/-- The tokens of an item are among those of the list. -/
theorem length_le_commaFaces {fs : List Face} {fss : List (List Face)} (h : fs ∈ fss) :
    fs.length ≤ (commaFaces fss).length := by
  have behind {fss : List (List Face)} (h : fs ∈ fss) : fs.length ≤ (behindFaces (.comma, ",") fss).length := by
    have item : (((.comma, ",") :: fs) : List Face) ∈ fss.map ((.comma, ",") :: ·) := List.mem_map_of_mem h
    exact Nat.le_trans (Nat.le_succ _) (List.sublist_flatten_of_mem item).length_le
  cases h with
  | head fss => simp [commaFaces]
  | tail _ h => simpa [commaFaces] using Nat.le_trans (behind h) (Nat.le_add_left _ _)

namespace Reads

variable {p : Parse α} {rest : List Face} {xs : List α} {fss : List (List Face)} {ends : List Face → Prop}

/-- Items behind separators, if each of them can be read in front of whatever may stand behind it. -/
theorem behind {separator : Parse Bool} {sep : Face}
    (items : List.Forall₂ (fun fs x => ∀ r, ends r → Reads p fs x r) fss xs)
    (one_more : ∀ fs ∈ fss, ∀ r, Reads separator [sep] true (fs ++ r)) (no_more : Reads separator [] false rest)
    (goes_on : ∀ r, ends (sep :: r)) (stops : ends rest) :
    Reads (Parse.behind separator p) (behindFaces sep fss) xs rest := by
  refine collect ?_
  induction items with
  | nil =>
    intro n enough
    obtain ⟨n, rfl⟩ : ∃ m, n = m + 1 := ⟨n - 1, by omega⟩
    exact collectUpTo_stop (Reads.bind_nil no_more (.pure _ rest)) n
  | @cons fs x fss xs first _ ih =>
    intro n enough
    rw [behindFaces_cons, List.length_cons, List.length_append] at enough
    obtain ⟨n, rfl⟩ : ∃ m, n = m + 1 := ⟨n - 1, by omega⟩
    have follows : ends (behindFaces sep fss ++ rest) := by
      cases fss with
      | nil => exact stops
      | cons _ _ => exact goes_on _
    have round : Reads (do if ← separator then return ([← p], true) else return ([], false)) (sep :: fs) ([x], true)
        (behindFaces sep fss ++ rest) :=
      Reads.bind (one_more fs (by simp) _) ((first _ follows).map fun x => ([x], true))
    exact collectUpTo_more round (ih (fun fs hfs => one_more fs (by simp [hfs])) n (by omega))

theorem behind_nil {separator : Parse Bool} (no_more : Reads separator [] false rest) :
    Reads (Parse.behind separator p) [] [] rest := by
  refine collect fun n enough => ?_
  obtain ⟨n, rfl⟩ : ∃ m, n = m + 1 := ⟨n - 1, by simp at enough; omega⟩
  exact collectUpTo_stop (Reads.bind_nil no_more (.pure _ rest)) n

/-- Items with commas between them up to a closing token, which is left. -/
theorem commaListUntil {close : TokenKind} {text : String}
    (items : List.Forall₂ (fun fs x => ∀ r, ends r → Reads p fs x r) fss xs)
    (begins : ∀ fs ∈ fss, Begins (·.1 ≠ close) fs) (no_comma : close ≠ .comma)
    (goes_on : ∀ r, ends ((.comma, ",") :: r)) (stops : ends ((close, text) :: rest)) :
    Reads (Parse.commaListUntil close p) (commaFaces fss) xs ((close, text) :: rest) := by
  refine collect ?_
  induction items with
  | nil =>
    intro n enough
    obtain ⟨n, rfl⟩ : ∃ m, n = m + 1 := ⟨n - 1, by omega⟩
    refine collectUpTo_stop (Reads.get_bind fun s hs => ?_) n
    rw [Stream.at_eq hs, if_pos (by simp)]
    exact .pure _ _
  | @cons fs x fss xs first others ih =>
    intro n enough
    obtain ⟨n, rfl⟩ : ∃ m, n = m + 1 := ⟨n - 1, by omega⟩
    obtain ⟨f, gs, rfl, not_close⟩ := begins fs (by simp)
    have round {more : Bool} {hs r : List Face} (read : Reads p (f :: gs) x (hs ++ r))
        (comma : Reads (Parse.tryToken .comma) hs more r) : Reads (do
          if (← get).at_ close then return ([], false)
          else
            let x ← p
            return ([x], ← Parse.tryToken .comma)) ((f :: gs) ++ hs) ([x], more) r := by
      refine Reads.get_bind fun s hs => ?_
      rw [Stream.at_eq hs, if_neg (by simpa using not_close)]
      exact Reads.bind read (comma.map fun more => ([x], more))
    cases others with
    | nil =>
      have last := round (first _ stops) (tryToken_false no_comma)
      rw [List.append_nil] at last
      simpa [commaFaces] using collectUpTo_stop last n
    | @cons fs' x' fss xs second others =>
      rw [commaFaces_cons_cons, List.length_append, List.length_cons] at enough
      have tail := ih (fun fs hfs => begins fs (by simp [hfs])) n (by simp only [List.length_cons] at enough; omega)
      have front : Reads _ ((f :: gs) ++ [(.comma, ",")]) ([x], true)
          (commaFaces (fs' :: fss) ++ (close, text) :: rest) :=
        round (first _ (goes_on _)) (tryToken_true (by decide))
      have both := collectUpTo_more front tail
      rwa [List.append_assoc] at both

/-- A single item. -/
theorem commaList_single {f : Face} {fs rest' : List Face} {x : α} (h : Reads p fs x (f :: rest'))
    (no_comma : f.1 ≠ .comma) : Reads (Parse.commaList p) fs [x] (f :: rest') :=
  h.bind_nil ((behind_nil (tryToken_false no_comma)).map (x :: ·))

/-- At least one item, with commas between them. -/
theorem commaList {f : Face} {rest' : List Face}
    (items : List.Forall₂ (fun fs x => ∀ r, ends r → Reads p fs x r) fss xs)
    (ne_nil : fss ≠ []) (no_comma : f.1 ≠ .comma) (goes_on : ∀ r, ends ((.comma, ",") :: r))
    (stops : ends (f :: rest')) :
    Reads (Parse.commaList p) (commaFaces fss) xs (f :: rest') := by
  cases items with
  | nil => exact absurd rfl ne_nil
  | @cons fs x fss xs first others =>
    have follows : ends (behindFaces (.comma, ",") fss ++ f :: rest') := by
      cases fss with
      | nil => exact stops
      | cons _ _ => exact goes_on _
    have tail : Reads (Parse.behind (Parse.tryToken .comma) p) (behindFaces (.comma, ",") fss) xs (f :: rest') :=
      behind others (fun _ _ _ => tryToken_true (by decide)) (tryToken_false no_comma) goes_on stops
    exact Reads.bind (first _ follows) (tail.map (x :: ·))

end Reads

/-! ## Readers that fail -/

namespace Fails

variable {p : Parse α} {f : Face} {fs rest : List Face} {x : α} {k : TokenKind}

theorem expect (other : f.1 ≠ k) : Fails (Parse.expect k) (f :: fs) := by
  refine get_bind fun s hs => ?_
  rw [Stream.at_eq hs, if_neg (by simpa using other)]
  exact failExpected _ _

theorem expectIdent (what : String) (other : f.1 ≠ .ident) : Fails (Parse.expectIdent what) (f :: fs) := by
  refine get_bind fun s hs => ?_
  rw [Stream.at_eq hs, if_neg (by simpa using other)]
  exact failExpected _ _

/-- The first reader reads nothing. -/
theorem nil_bind {h : α → Parse β} (hp : Reads p [] x fs) (hf : Fails (h x) fs) : Fails (p >>= h) fs :=
  bind_of_reads hp hf

/-- Behind items that are read and one separator more, an item fails. -/
theorem behind {separator : Parse Bool} {sep : Face} {xs : List α} {fss : List (List Face)}
    (items : List.Forall₂ (fun fs x => ∀ r, Reads p fs x r) fss xs)
    (one_more : ∀ r, Reads separator [sep] true r) (last : Fails p rest) :
    Fails (Parse.behind separator p) (behindFaces sep fss ++ sep :: rest) := by
  refine get_bind fun s hs => ?_
  clear hs
  generalize s.unread + 1 = n
  induction items generalizing n with
  | nil =>
    cases n with
    | zero => exact failWith _ _
    | succ n =>
      have stop : Fails (do if ← separator then return ([← p], true) else return ([], false)) ([sep] ++ rest) :=
        bind_of_reads (one_more _) last.bind
      exact stop.bind
  | @cons fs x fss xs first _ ih =>
    cases n with
    | zero => exact failWith _ _
    | succ n =>
      have round : Reads (do if ← separator then return ([← p], true) else return ([], false)) (sep :: fs) ([x], true)
          (behindFaces sep fss ++ sep :: rest) :=
        Reads.bind (one_more _) ((first _).map fun x => ([x], true))
      rw [behindFaces_cons, ← List.cons_append, List.append_assoc]
      exact bind_of_reads round (ih n).bind

end Fails

/-! ## Readers that look at more than the tokens -/

/-- In front of the tokens `fs ++ rest`, the reader reads `fs`, leaves `rest`, and gives something that satisfies
`P`. -/
def Finds (p : Parse α) (fs : List Face) (P : α → Prop) (rest : List Face) : Prop :=
  ∀ s, s.faces = fs ++ rest → ∃ x s', p s = .ok (x, s') ∧ P x ∧ s'.faces = rest

theorem Reads.finds {p : Parse α} {fs rest : List Face} {x : α} {P : α → Prop} (h : Reads p fs x rest) (holds : P x) :
    Finds p fs P rest := by
  intro s hs
  obtain ⟨s', read, left⟩ := h s hs
  exact ⟨x, s', read, holds, left⟩

namespace Finds

variable {p : Parse α} {f : α → Parse β} {fs gs rest : List Face} {x : α} {P : α → Prop} {Q : β → Prop}

theorem pure (h : P x) (rest : List Face) : Finds (pure x) [] P rest := (Reads.pure x rest).finds h

theorem bind (hp : Finds p fs P (gs ++ rest)) (hf : ∀ x, P x → Finds (f x) gs Q rest) :
    Finds (p >>= f) (fs ++ gs) Q rest := by
  intro s hs
  rw [List.append_assoc] at hs
  obtain ⟨x, s₁, read, holds, left⟩ := hp s hs
  obtain ⟨y, s₂, read', holds', left'⟩ := hf x holds s₁ left
  refine ⟨y, s₂, ?_, holds', left'⟩
  change (p s).bind (fun r => f r.1 r.2) = _
  rw [read]
  exact read'

/-- The first reader is known from the tokens alone. -/
theorem bind_reads (hp : Reads p fs x (gs ++ rest)) (hf : Finds (f x) gs Q rest) : Finds (p >>= f) (fs ++ gs) Q rest :=
  bind (P := (· = x)) (hp.finds rfl) fun _ same => by rwa [same]

theorem get_bind {f : Stream → Parse β} (h : ∀ s, s.faces = fs ++ rest → Finds (f s) fs Q rest) :
    Finds (get >>= f) fs Q rest := by
  intro s hs
  exact h s hs s hs

theorem mono {P' : α → Prop} (h : Finds p fs P rest) (imp : ∀ x, P x → P' x) : Finds p fs P' rest := by
  intro s hs
  obtain ⟨x, s', read, holds, left⟩ := h s hs
  exact ⟨x, s', read, imp x holds, left⟩

/-- The first reader reads nothing. -/
theorem nil_bind (hp : Finds p [] P (fs ++ rest)) (hf : ∀ x, P x → Finds (f x) fs Q rest) :
    Finds (p >>= f) fs Q rest := by
  have both : Finds (p >>= f) ([] ++ fs) Q rest := bind hp hf
  exact both

/-- The second reader reads nothing. -/
theorem bind_nil (hp : Finds p fs P rest) (hf : ∀ x, P x → Finds (f x) [] Q rest) : Finds (p >>= f) fs Q rest := by
  have both : Finds (p >>= f) (fs ++ []) Q rest := bind hp hf
  rwa [List.append_nil] at both

theorem map (hp : Finds p fs P rest) {F : α → β} (h : ∀ x, P x → Q (F x)) : Finds (do return F (← p)) fs Q rest :=
  bind_nil hp fun x hx => .pure (h x hx) rest

theorem fmap (hp : Finds p fs P rest) {F : α → β} (h : ∀ x, P x → Q (F x)) : Finds (F <$> p) fs Q rest := by
  intro s hs
  obtain ⟨x, s', read, holds, left⟩ := hp s hs
  refine ⟨F x, s', ?_, h x holds, left⟩
  change (p s).bind (fun r => .ok (F r.1, r.2)) = _
  rw [read]
  rfl

/-- The first reader reads one token. -/
theorem cons_bind {t : Face} (hp : Finds p [t] P (fs ++ rest)) (hf : ∀ x, P x → Finds (f x) fs Q rest) :
    Finds (p >>= f) (t :: fs) Q rest := by
  have both : Finds (p >>= f) ([t] ++ fs) Q rest := bind hp hf
  exact both

theorem advance {k : TokenKind} {text : String} (more : k ≠ .eof) :
    Finds Parse.advance [(k, text)] (·.text = text) rest := by
  intro s hs
  obtain ⟨t, s', read, same, left⟩ := Parse.advance_eq more hs
  exact ⟨t, s', read, same, left⟩

theorem expect {k : TokenKind} {text : String} (more : k ≠ .eof) :
    Finds (Parse.expect k) [(k, text)] (·.text = text) rest := by
  refine get_bind fun s hs => ?_
  rw [Stream.at_eq hs, if_pos (by simp)]
  exact advance more

theorem expectKeyword {k : TokenKind} {text word : String} (here : Face.isKeyword (k, text) word = true) :
    Finds (Parse.expectKeyword word) [(k, text)] (·.text = text) rest := by
  have more : k ≠ .eof := by
    rintro rfl
    simp [Face.isKeyword] at here
  refine get_bind fun s hs => ?_
  rw [Stream.atKeyword_eq hs, if_pos here]
  exact advance more

theorem enclosedBy {opening closing : TokenKind} {text text' : String} (more : opening ≠ .eof) (more' : closing ≠ .eof)
    (h : Finds p fs P ((closing, text') :: rest)) :
    Finds (Parse.enclosedBy opening closing p) ((opening, text) :: (fs ++ [(closing, text')])) P rest :=
  cons_bind (expect more) fun _ _ => bind h fun _ hx => bind_nil (expect more') fun _ _ => .pure hx rest

/-! ### Comments -/

/-- A doc comment is taken if there is one. -/
theorem takeDoc : Finds Parse.takeDoc [] (fun _ => True) rest := by
  intro s hs
  obtain ⟨tokens, _, _, _, _, _⟩ := s
  cases tokens with
  | nil => exact ⟨_, _, rfl, trivial, hs⟩
  | cons t ts => exact ⟨_, _, rfl, trivial, hs⟩

theorem takeComments : Finds Parse.takeComments [] (fun _ => True) rest := by
  intro s hs
  obtain ⟨tokens, _, _, _, _, _⟩ := s
  cases tokens with
  | nil => exact ⟨_, _, rfl, trivial, hs⟩
  | cons t ts => exact ⟨_, _, rfl, trivial, hs⟩

/-- Nothing but comments is found in front of a statement. -/
theorem leadingComments : Finds Parse.leadingComments [] (∀ stmt ∈ ·, ∃ text, stmt = .comment text) rest := by
  have comments (texts : List String) : ∀ stmt ∈ texts.map Node.comment, ∃ text, stmt = .comment text := by
    intro stmt member
    obtain ⟨text, -, rfl⟩ := List.mem_map.1 member
    exact ⟨text, rfl⟩
  refine bind takeComments fun texts _ => get_bind fun s _ => ?_
  split
  · exact .pure (comments _) rest
  · exact bind takeDoc fun doc _ => .pure (comments _) rest

/-- In front of a statement, fillers are passed over, and comments are taken. -/
theorem leading {k : List Stmt → Stream → Parse β} (skipped : List Face)
    (fillers : ∀ f ∈ skipped, f.1 ∈ Parse.fillers) (begins : Begins (·.1 ∉ Parse.fillers) (fs ++ rest))
    (h : ∀ comments s, (∀ stmt ∈ comments, ∃ text, stmt = .comment text) → s.faces = fs ++ rest →
      Finds (k comments s) fs Q rest) :
    Finds (do
      Parse.skipAll Parse.fillers
      let comments ← Parse.leadingComments
      let s ← get
      k comments s) (skipped ++ fs) Q rest := by
  obtain ⟨f, gs, first, other⟩ := begins
  have skip : Reads (Parse.skipAll Parse.fillers) skipped () (fs ++ rest) := by
    rw [first]
    refine .skipAll (fun f hf => ⟨fillers f hf, fun eof => ?_⟩) other
    have known := fillers f hf
    rw [eof] at known
    exact absurd known (by decide)
  exact bind_reads skip (nil_bind leadingComments fun comments all => get_bind fun s hs => h comments s all hs)

/-! ### Loops -/

theorem collect {step : Parse (List α × Bool)} {P : List α → Prop}
    (h : ∀ n, fs.length < n → Finds (Parse.collectUpTo step n) fs P rest) : Finds (Parse.collect step) fs P rest := by
  refine Finds.get_bind fun s hs => h _ ?_
  rw [← Stream.length_faces, hs, List.length_append]
  omega

/-- What is found in rounds shows the items, if what each round finds shows one of them. In front of an item, or behind
the last one, there may be tokens that a round passes over. -/
theorem collect_items {ι : Type} {step : Parse (List α × Bool)} (Shows : List α → List ι → Prop)
    (Passed : List Face → Prop) (passed : List Face) {items : List ι} {faces : ι → List Face}
    (append : ∀ {xs xs' is is'}, Shows xs is → Shows xs' is' → Shows (xs ++ xs') (is ++ is'))
    (round : ∀ passed, Passed passed → ∀ i is, i :: is <:+ items →
      Finds step (passed ++ faces i) (fun y => y.2 = true ∧ Shows y.1 [i]) (is.flatMap faces ++ rest))
    (last : ∀ passed, Passed passed → Finds step passed (fun y => y.2 = false ∧ Shows y.1 []) rest)
    (ne_nil : ∀ i ∈ items, faces i ≠ []) (none : Passed []) (h : Passed passed) :
    Finds (Parse.collect step) (passed ++ items.flatMap faces) (Shows · items) rest := by
  refine collect ?_
  induction items generalizing passed with
  | nil =>
    intro n enough
    obtain ⟨n, rfl⟩ : ∃ m, n = m + 1 := ⟨n - 1, by omega⟩
    rw [List.flatMap_nil, List.append_nil]
    refine bind_nil (last passed h) ?_
    rintro ⟨xs, more⟩ ⟨rfl, shows⟩
    exact .pure (P := (Shows · [])) shows rest
  | cons i items ih =>
    intro n enough
    have pos : 0 < (faces i).length := List.length_pos_iff.2 (ne_nil i (by simp))
    rw [List.flatMap_cons, List.length_append, List.length_append] at enough
    obtain ⟨n, rfl⟩ : ∃ m, n = m + 1 := ⟨n - 1, by omega⟩
    have tail := ih [] (fun passed h i is suffix => round passed h i is (suffix.trans (List.suffix_cons _ _)))
      (fun i hi => ne_nil i (by simp [hi])) none n (by rw [List.nil_append]; omega)
    rw [List.flatMap_cons, ← List.append_assoc]
    refine bind (round passed h i items (List.suffix_refl _)) ?_
    rintro ⟨xs, more⟩ ⟨rfl, shows⟩
    exact tail.map fun xs' shows' => append shows shows'

end Finds

end Codewright.Php
