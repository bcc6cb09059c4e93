import BlockLang.Code.Text
import Mathlib.Tactic.Common

/-! Printed tree code can be read in one way only, if its labels are anonymous, registers or lower-case
identifiers. A text begins with a word that tells what is printed, and where the word ends, the parts
are told apart by marks that no word has. -/

namespace BlockLang

def isIdentifier : List Char → Bool
  | [] => false
  | c :: cs => (c.isLower || c == '_') && cs.all fun d => d.isLower || d.isDigit || d == '_'

def Label.isReadable : Label → Bool
  | .anonymous _ => true
  | .named x => .named x = framePointer || .named x = stackPointer || isIdentifier x.toList

namespace Code

mutual

def Exp.labels : Exp → List Label
  | .const _ | .temp _ => []
  | .name l => [l]
  | .mem a => a.labels
  | .binop _ a b => a.labels ++ b.labels
  | .call f args => f :: Exp.labelsAll args
  | .eseq s e => s.labels ++ e.labels

def Exp.labelsAll : List Exp → List Label
  | [] => []
  | e :: es => e.labels ++ Exp.labelsAll es

def Stm.labels : Stm → List Label
  | .move dst src => dst.labels ++ src.labels
  | .exp e => e.labels
  | .seq ss => Stm.labelsAll ss
  | .cjump c l l' => l :: l' :: c.labels
  | .jump l | .label l => [l]

def Stm.labelsAll : List Stm → List Label
  | [] => []
  | s :: ss => s.labels ++ Stm.labelsAll ss

end

def Readable (ls : List Label) : Prop := ∀ l ∈ ls, l.isReadable = true

instance (ls : List Label) : Decidable (Readable ls) :=
  inferInstanceAs (Decidable (∀ l ∈ ls, l.isReadable = true))

section Words

def isWordChar (c : Char) : Bool := c.isAlphanum || c == '_' || c == '-'

def Breaks : List Char → Prop
  | [] => True
  | c :: _ => isWordChar c = false

def IsLexeme (w : List Char) : Prop :=
  w = Label.framePointer.text.toList ∨ w = Label.stackPointer.text.toList ∨
    w ≠ [] ∧ ∀ c ∈ w, isWordChar c = true

variable {w w' r r' : List Char}

@[simp] lemma breaks_nil : Breaks [] := trivial

@[simp] lemma breaks_cons {c : Char} : Breaks (c :: r) ↔ isWordChar c = false := Iff.rfl

lemma takeWhile_append (hw : ∀ c ∈ w, isWordChar c = true) (hr : Breaks r) :
    (w ++ r).takeWhile isWordChar = w := by
  rw [List.takeWhile_append_of_pos hw]
  cases r with
  | nil => simp
  | cons c r => simp [breaks_cons.mp hr]

lemma IsLexeme.append_inj (hw : IsLexeme w) (hw' : IsLexeme w') (hr : Breaks r) (hr' : Breaks r')
    (h : w ++ r = w' ++ r') : w = w' ∧ r = r' := by
  have hword : ∀ {v : List Char}, v ≠ [] → (∀ c ∈ v, isWordChar c = true) →
      ∀ {c : Char} {s t : List Char}, v ++ s = c :: t → isWordChar c = true := by
    intro v hne hv c s t he
    cases v with
    | nil => exact (hne rfl).elim
    | cons d v =>
      obtain ⟨rfl, -⟩ := List.cons.inj he
      exact hv d (List.mem_cons_self ..)
  rcases hw with rfl | rfl | ⟨hne, hw⟩ <;> rcases hw' with rfl | rfl | ⟨hne', hw'⟩
  · exact ⟨rfl, List.append_cancel_left h⟩
  · cases h
  · cases hword hne' hw' h.symm
  · cases h
  · exact ⟨rfl, List.append_cancel_left h⟩
  · cases hword hne' hw' h.symm
  · cases hword hne hw h
  · cases hword hne hw h
  · have he : w = w' := by
      rw [← takeWhile_append hw hr, h, takeWhile_append hw' hr']
    exact ⟨he, List.append_cancel_left (he ▸ h)⟩

lemma not_isUpper_of_isDigit {c : Char} (h : c.isDigit = true) : c.isUpper = false := by
  delta Char.isDigit at h
  delta Char.isUpper
  grind

lemma isDigit_of_mem {n : Nat} {c : Char} (h : c ∈ Nat.toDigits 10 n) : c.isDigit = true :=
  Nat.isDigit_of_mem_toDigits (by decide) (by decide) h

lemma toDigits_eq_cons (n : Nat) : ∃ c cs, Nat.toDigits 10 n = c :: cs ∧ c.isDigit = true := by
  obtain ⟨c, cs, h⟩ := List.exists_cons_of_ne_nil (Nat.toDigits_ne_nil (n := n) (b := 10))
  exact ⟨c, cs, h, isDigit_of_mem (h ▸ List.mem_cons_self ..)⟩

lemma toList_repr_cases (n : Int) :
    (∃ k : Nat, n = k ∧ n.repr.toList = Nat.toDigits 10 k) ∨
      ∃ k : Nat, n = -k ∧ n.repr.toList = '-' :: Nat.toDigits 10 k := by
  cases n with
  | ofNat k => exact .inl ⟨k, rfl, Nat.toList_repr⟩
  | negSucc k =>
    refine .inr ⟨k + 1, rfl, ?_⟩
    rw [Int.repr, String.toList_append, Nat.toList_repr]
    rfl

end Words

inductive Keyword where
  | op (op : Op)
  | mem
  | call
  | eseq
  | move
  | exp
  | seq
  | cjump
  | jump
deriving DecidableEq

namespace Keyword

def text : Keyword → String
  | op o => mnemonic o
  | mem => "MEM"
  | call => "CALL"
  | eseq => "ESEQ"
  | move => "MOVE"
  | exp => "EXP"
  | seq => "SEQ"
  | cjump => "CJUMP"
  | jump => "JUMP"

def word (k : Keyword) : List Char := k.text.toList

def all : List Keyword :=
  [mem, call, eseq, move, exp, seq, cjump, jump] ++ Op.all.map op

lemma find_word (k : Keyword) : all.find? (fun k' => k'.word = k.word) = some k := by
  cases k with
  | op o => cases o <;> decide
  | _ => decide

lemma word_ne_nil (k : Keyword) : k.word ≠ [] := by
  cases k with
  | op o => cases o <;> decide
  | _ => decide

lemma isUpper_word (k : Keyword) : k.word.all Char.isUpper = true := by
  cases k with
  | op o => cases o <;> decide
  | _ => decide

end Keyword

inductive Head where
  | number (n : Int)
  | temp (t : Temp)
  | label (l : Label)
  | keyword (k : Keyword)

namespace Head

def word : Head → List Char
  | number n => n.repr.toList
  | temp t => 'T' :: Nat.toDigits 10 t.toNat
  | label l => l.text.toList
  | keyword k => k.word

lemma word_anonymous (n : Nat) : (label (.anonymous n)).word = 'L' :: Nat.toDigits 10 n := by
  simp [word, Label.text]

def IsReadable : Head → Prop
  | label l => l.isReadable = true
  | number _ | temp _ | keyword _ => True

def read : List Char → Head
  | [] => number 0
  | c :: cs =>
    if (c :: cs).all Char.isUpper then
      keyword ((Keyword.all.find? fun k => k.word = c :: cs).getD .mem)
    else if c = 'T' then temp (.ofNat (Nat.ofDigitChars 10 cs 0))
    else if c = 'L' then label (.anonymous (Nat.ofDigitChars 10 cs 0))
    else if c = '-' then number (-(Nat.ofDigitChars 10 cs 0 : Nat))
    else if c.isDigit then number (Nat.ofDigitChars 10 (c :: cs) 0 : Nat)
    else label (.named (String.ofList (c :: cs)))

variable {c : Char} {cs : List Char}

lemma read_toDigits (n : Nat) : read (Nat.toDigits 10 n) = number n := by
  obtain ⟨c, cs, h, hd⟩ := toDigits_eq_cons n
  have hu := not_isUpper_of_isDigit hd
  have hc : c ≠ 'T' ∧ c ≠ 'L' ∧ c ≠ '-' := by
    refine ⟨?_, ?_, ?_⟩ <;> rintro rfl <;> cases hd
  rw [h, read]
  simp only [List.all_cons, hu, hc, hd, Bool.false_and, Bool.false_eq_true, if_false, if_true]
  rw [← h, Nat.ofDigitChars_ten_toDigits]

lemma read_minus (n : Nat) : read ('-' :: Nat.toDigits 10 n) = number (-n) := by
  rw [read, Nat.ofDigitChars_ten_toDigits]
  rfl

lemma read_name (h : c.isLower = true ∨ c = '_' ∨ c = '\x7b') :
    read (c :: cs) = label (.named (String.ofList (c :: cs))) := by
  have hu : c.isUpper = false ∧ c.isDigit = false := by
    rcases h with h | rfl | rfl
    · delta Char.isLower at h
      delta Char.isUpper Char.isDigit
      grind
    · decide
    · decide
  have hc : c ≠ 'T' ∧ c ≠ 'L' ∧ c ≠ '-' := by
    refine ⟨?_, ?_, ?_⟩ <;> rintro rfl <;> simp at h hu
  simp [read, hu, hc]

lemma read_digits {n : Nat} (hc : c = 'T' ∨ c = 'L') :
    read (c :: Nat.toDigits 10 n) =
      if c = 'T' then temp (.ofNat n) else label (.anonymous n) := by
  obtain ⟨d, ds, h, hd⟩ := toDigits_eq_cons n
  have hall : (c :: Nat.toDigits 10 n).all Char.isUpper = false := by
    rw [h]
    simp [not_isUpper_of_isDigit hd]
  rw [read, if_neg (by rw [hall]; exact Bool.false_ne_true), Nat.ofDigitChars_ten_toDigits]
  rcases hc with rfl | rfl
  · rfl
  · rfl

lemma name_eq_cons {x : String} (h : (Label.named x).isReadable = true) :
    ∃ c cs, x.toList = c :: cs ∧ (c.isLower = true ∨ c = '_' ∨ c = '\x7b') := by
  simp only [Label.isReadable, Bool.or_eq_true, decide_eq_true_eq] at h
  rcases h with (h | h) | h
  · obtain rfl := Label.named.inj h
    exact ⟨_, _, rfl, .inr (.inr rfl)⟩
  · obtain rfl := Label.named.inj h
    exact ⟨_, _, rfl, .inr (.inr rfl)⟩
  · cases hx : x.toList with
    | nil =>
      rw [hx] at h
      cases h
    | cons c cs =>
      rw [hx, isIdentifier, Bool.and_eq_true, Bool.or_eq_true, beq_iff_eq] at h
      exact ⟨c, cs, rfl, h.1.imp_right .inl⟩

lemma read_word {h : Head} (hr : h.IsReadable) : read h.word = h := by
  cases h with
  | number n =>
    rw [word]
    rcases toList_repr_cases n with ⟨k, rfl, hk⟩ | ⟨k, rfl, hk⟩
    · rw [hk, read_toDigits]
    · rw [hk, read_minus]
  | temp t =>
    rw [word, read_digits (.inl rfl), if_pos rfl]
    simp [Ident.ofNat, Ident.toNat]
  | label l =>
    cases l with
    | anonymous n =>
      rw [word_anonymous, read_digits (.inr rfl)]
      rfl
    | named x =>
      obtain ⟨c, cs, hx, hc⟩ := name_eq_cons hr
      have hw : (label (.named x)).word = x.toList := rfl
      rw [hw, hx, read_name hc, ← hx, String.ofList_toList]
  | keyword k =>
    rw [word]
    cases hk : k.word with
    | nil => exact (k.word_ne_nil hk).elim
    | cons c cs =>
      have hall := k.isUpper_word
      rw [hk] at hall
      rw [read, if_pos hall, ← hk, Keyword.find_word, Option.getD_some]

lemma isWordChar_of_isAlphanum (h : c.isAlphanum = true) : isWordChar c = true := by
  simp [isWordChar, h]

lemma isWordChar_of_isDigit (h : c.isDigit = true) : isWordChar c = true :=
  isWordChar_of_isAlphanum ((Bool.or_eq_true _ _).mpr (.inr h))

lemma isWordChar_of_isAlpha (h : c.isUpper = true ∨ c.isLower = true) : isWordChar c = true :=
  isWordChar_of_isAlphanum ((Bool.or_eq_true _ _).mpr (.inl ((Bool.or_eq_true _ _).mpr h)))

lemma isWordChar_of_eq_underscore (h : (c == '_') = true) : isWordChar c = true := by
  simp [isWordChar, h]

lemma isWordChar_of_mem {n : Nat} (h : c ∈ Nat.toDigits 10 n) : isWordChar c = true :=
  isWordChar_of_isDigit (isDigit_of_mem h)

lemma isWordChar_of_isIdentifier (h : isIdentifier cs = true) (hc : c ∈ cs) :
    isWordChar c = true := by
  cases cs with
  | nil => cases hc
  | cons d ds =>
    simp only [isIdentifier, Bool.and_eq_true, List.all_eq_true, Bool.or_eq_true] at h
    rcases List.mem_cons.mp hc with rfl | hc
    · rcases h.1 with h | h
      · exact isWordChar_of_isAlpha (.inr h)
      · exact isWordChar_of_eq_underscore h
    · rcases h.2 c hc with (h | h) | h
      · exact isWordChar_of_isAlpha (.inr h)
      · exact isWordChar_of_isDigit h
      · exact isWordChar_of_eq_underscore h

lemma isLexeme_cons (hc : isWordChar c = true) (h : ∀ d ∈ cs, isWordChar d = true) :
    IsLexeme (c :: cs) :=
  .inr (.inr ⟨List.cons_ne_nil _ _, List.forall_mem_cons.mpr ⟨hc, h⟩⟩)

lemma isLexeme_word {h : Head} (hr : h.IsReadable) : IsLexeme h.word := by
  cases h with
  | number n =>
    rw [word]
    rcases toList_repr_cases n with ⟨k, -, hk⟩ | ⟨k, -, hk⟩
    · rw [hk]
      exact .inr (.inr ⟨Nat.toDigits_ne_nil, fun c hc => isWordChar_of_mem hc⟩)
    · rw [hk]
      exact isLexeme_cons rfl fun c hc => isWordChar_of_mem hc
  | temp t => exact isLexeme_cons rfl fun c hc => isWordChar_of_mem hc
  | label l =>
    cases l with
    | anonymous n =>
      rw [word_anonymous]
      exact isLexeme_cons rfl fun c hc => isWordChar_of_mem hc
    | named x =>
      simp only [IsReadable, Label.isReadable, Bool.or_eq_true, decide_eq_true_eq] at hr
      rcases hr with (hr | hr) | hr
      · exact .inl (by rw [word, hr])
      · exact .inr (.inl (by rw [word, hr]))
      · refine .inr (.inr ⟨?_, fun c hc => isWordChar_of_isIdentifier hr hc⟩)
        rintro he
        rw [show x.toList = [] from he] at hr
        cases hr
  | keyword k =>
    refine .inr (.inr ⟨k.word_ne_nil, fun c hc => ?_⟩)
    exact isWordChar_of_isAlpha (.inl (List.all_eq_true.mp k.isUpper_word c hc))

lemma append_inj {h h' : Head} {r r' : List Char} (hr : h.IsReadable) (hr' : h'.IsReadable)
    (hb : Breaks r) (hb' : Breaks r') (he : h.word ++ r = h'.word ++ r') : h = h' ∧ r = r' := by
  obtain ⟨hw, rfl⟩ := (isLexeme_word hr).append_inj (isLexeme_word hr') hb hb' he
  exact ⟨by rw [← read_word hr, hw, read_word hr'], rfl⟩

end Head

section Lists

variable {α : Type} {f : α → List Char} {P : α → Prop}

/-- Where the text of `a` stands in front of another text, it is not the text of anything else. -/
def Reads (f : α → List Char) (P : α → Prop) (a : α) : Prop :=
  ∀ a' r r', P a' → f a ++ r = f a' ++ r' → Breaks r → Breaks r' → a = a' ∧ r = r'

lemma Reads.mark {a a' : α} {m : Char} {r r' : List Char} (h : Reads f P a) (h' : P a')
    (hm : isWordChar m = false) (he : f a ++ m :: r = f a' ++ m :: r') : a = a' ∧ r = r' := by
  obtain ⟨rfl, hrest⟩ := h _ _ _ h' he hm hm
  exact ⟨rfl, (List.cons.inj hrest).2⟩

lemma breaks_following {mark close : Char} (hm : isWordChar mark = false)
    (hc : isWordChar close = false) (as : List α) (r : List Char) :
    Breaks (as.flatMap (fun a => mark :: ' ' :: f a) ++ close :: r) := by
  cases as with
  | nil => exact hc
  | cons a as => exact hm

lemma Reads.following {mark close : Char} (hm : isWordChar mark = false)
    (hc : isWordChar close = false) (hne : mark ≠ close) {as as' : List α}
    (h : ∀ a ∈ as, Reads f P a) (h' : ∀ a ∈ as', P a) {r r' : List Char}
    (he : as.flatMap (fun a => mark :: ' ' :: f a) ++ close :: r =
      as'.flatMap (fun a => mark :: ' ' :: f a) ++ close :: r') : as = as' ∧ r = r' := by
  induction as generalizing as' with
  | nil =>
    cases as' with
    | nil => exact ⟨rfl, (List.cons.inj he).2⟩
    | cons a' as' => exact (hne (List.cons.inj he).1.symm).elim
  | cons a as ih =>
    cases as' with
    | nil => exact (hne (List.cons.inj he).1).elim
    | cons a' as' =>
      simp only [List.flatMap_cons, List.cons_append, List.append_assoc, List.cons.injEq,
        true_and] at he
      obtain ⟨rfl, hrest⟩ := h a (List.mem_cons_self ..) _ _ _ (h' a' (List.mem_cons_self ..)) he
        (breaks_following hm hc ..) (breaks_following hm hc ..)
      obtain ⟨rfl, rfl⟩ := ih (fun a ha => h a (List.mem_cons_of_mem _ ha))
        (fun a ha => h' a (List.mem_cons_of_mem _ ha)) hrest
      exact ⟨rfl, rfl⟩

lemma intercalate_cons (mark : Char) (a : α) (as : List α) :
    [mark, ' '].intercalate ((a :: as).map f) = f a ++ as.flatMap fun a => mark :: ' ' :: f a := by
  induction as generalizing a with
  | nil => simp
  | cons b as ih =>
    rw [List.map_cons, List.map_cons, List.intercalate_cons_cons, ← List.map_cons, ih,
      List.flatMap_cons]
    simp

lemma ne_close {close : Char} (hclose : isWordChar close = false ∧ close ≠ '\x7b')
    {w r r' : List Char} (hw : IsLexeme w) : w ++ r ≠ close :: r' := by
  intro he
  rcases hw with rfl | rfl | ⟨hne, hw⟩
  · exact hclose.2 (List.cons.inj he).1.symm
  · exact hclose.2 (List.cons.inj he).1.symm
  · cases w with
    | nil => exact hne rfl
    | cons c w =>
      obtain ⟨rfl, -⟩ := List.cons.inj he
      cases hclose.1.symm.trans (hw c (List.mem_cons_self ..))

lemma Reads.listed {mark close : Char} (hm : isWordChar mark = false)
    (hc : isWordChar close = false ∧ close ≠ '\x7b') (hne : mark ≠ close)
    (hf : ∀ a, P a → ∃ w r, f a = w ++ r ∧ IsLexeme w)
    {as as' : List α} (h : ∀ a ∈ as, Reads f P a) (hp : ∀ a ∈ as, P a) (h' : ∀ a ∈ as', P a)
    {r r' : List Char} (he : [mark, ' '].intercalate (as.map f) ++ close :: r =
      [mark, ' '].intercalate (as'.map f) ++ close :: r') : as = as' ∧ r = r' := by
  cases as with
  | nil =>
    cases as' with
    | nil => exact ⟨rfl, (List.cons.inj he).2⟩
    | cons a' as' =>
      obtain ⟨w, s, hw, hlex⟩ := hf a' (h' a' (List.mem_cons_self ..))
      rw [intercalate_cons, hw, List.append_assoc, List.append_assoc] at he
      exact (ne_close hc hlex he.symm).elim
  | cons a as =>
    cases as' with
    | nil =>
      obtain ⟨w, s, hw, hlex⟩ := hf a (hp a (List.mem_cons_self ..))
      rw [intercalate_cons, hw, List.append_assoc, List.append_assoc] at he
      exact (ne_close hc hlex he).elim
    | cons a' as' =>
      rw [intercalate_cons, intercalate_cons, List.append_assoc, List.append_assoc] at he
      obtain ⟨rfl, hrest⟩ := h a (List.mem_cons_self ..) _ _ _ (h' a' (List.mem_cons_self ..)) he
        (breaks_following hm hc.1 ..) (breaks_following hm hc.1 ..)
      obtain ⟨rfl, rfl⟩ := Reads.following hm hc.1 hne (fun a ha => h a (List.mem_cons_of_mem _ ha))
        (fun a ha => h' a (List.mem_cons_of_mem _ ha)) hrest
      exact ⟨rfl, rfl⟩

end Lists

section Trees

def Exp.chars (e : Exp) : List Char := (e.text .plain).toList

def Stm.chars (s : Stm) : List Char := (s.text .plain).toList

def Exp.head : Exp → Head
  | .const w => .number w.toInt
  | .name l => .label l
  | .temp t => .temp t
  | .mem _ => .keyword .mem
  | .binop op _ _ => .keyword (.op op)
  | .call _ _ => .keyword .call
  | .eseq _ _ => .keyword .eseq

def Stm.head : Stm → Head
  | .move _ _ => .keyword .move
  | .exp _ => .keyword .exp
  | .seq _ => .keyword .seq
  | .cjump _ _ _ => .keyword .cjump
  | .jump _ => .keyword .jump
  | .label l => .label l

def Exp.tail : Exp → List Char
  | .const _ | .name _ | .temp _ => []
  | .mem a => '[' :: (a.chars ++ [']'])
  | .binop _ a b => '(' :: (a.chars ++ ',' :: ' ' :: (b.chars ++ [')']))
  | .call f args =>
    ' ' :: ((Head.label f).word ++ '(' :: ([',', ' '].intercalate (args.map chars) ++ [')']))
  | .eseq s e => '(' :: (s.chars ++ ';' :: ' ' :: (e.chars ++ [')']))

def Stm.tail : Stm → List Char
  | .move dst src => ' ' :: (dst.chars ++ ' ' :: '<' :: '-' :: ' ' :: src.chars)
  | .exp e => ' ' :: e.chars
  | .seq ss => '\x7b' :: ([';', ' '].intercalate (ss.map chars) ++ ['\x7d'])
  | .cjump c l m => ' ' :: (c.chars ++ ' ' :: ((Head.label l).word ++ ' ' :: (Head.label m).word))
  | .jump l => ' ' :: (Head.label l).word
  | .label _ => [':']

lemma Exp.texts_eq_map (p : Palette) (es : List Exp) : Exp.texts p es = es.map (text p) := by
  induction es with
  | nil => rfl
  | cons e es ih => rw [Exp.texts, ih, List.map_cons]

lemma Stm.texts_eq_map (p : Palette) (ss : List Stm) : Stm.texts p ss = ss.map (text p) := by
  induction ss with
  | nil => rfl
  | cons s ss ih => rw [Stm.texts, ih, List.map_cons]

lemma Exp.chars_eq (e : Exp) : e.chars = e.head.word ++ e.tail := by
  cases e <;> simp [chars, Stm.chars, head, tail, Head.word, Keyword.word, Keyword.text, Exp.text,
    labelText, tempText, Palette.paint, String.toList_intercalate, texts_eq_map]
  rfl

lemma Stm.chars_eq (s : Stm) : s.chars = s.head.word ++ s.tail := by
  cases s <;> simp [chars, Exp.chars, head, tail, Head.word, Keyword.word, Keyword.text, Stm.text,
    labelText, Palette.paint, String.toList_intercalate, texts_eq_map]
  rfl

lemma Exp.isReadable_head {e : Exp} (h : Readable e.labels) : e.head.IsReadable := by
  cases e with
  | name l => exact h l (List.mem_singleton_self l)
  | _ => trivial

lemma Stm.isReadable_head {s : Stm} (h : Readable s.labels) : s.head.IsReadable := by
  cases s with
  | label l => exact h l (List.mem_singleton_self l)
  | _ => trivial

lemma Exp.breaks_tail {r : List Char} (e : Exp) (h : Breaks r) : Breaks (e.tail ++ r) := by
  cases e with
  | const _ | name _ | temp _ => exact h
  | _ => rfl

lemma Stm.breaks_tail (s : Stm) (r : List Char) : Breaks (s.tail ++ r) := by
  cases s <;> rfl

lemma Readable.append {ls ls' : List Label} (h : Readable (ls ++ ls')) :
    Readable ls ∧ Readable ls' :=
  List.forall_mem_append.mp h

lemma Readable.cons {l : Label} {ls : List Label} (h : Readable (l :: ls)) :
    l.isReadable = true ∧ Readable ls :=
  List.forall_mem_cons.mp h

lemma Readable.ofAll {es : List Exp} (h : Readable (Exp.labelsAll es)) :
    ∀ e ∈ es, Readable e.labels := by
  induction es with
  | nil => exact List.forall_mem_nil _
  | cons e es ih => exact List.forall_mem_cons.mpr ⟨h.append.1, ih h.append.2⟩

lemma Readable.ofSeq {ss : List Stm} (h : Readable (Stm.labelsAll ss)) :
    ∀ s ∈ ss, Readable s.labels := by
  induction ss with
  | nil => exact List.forall_mem_nil _
  | cons s ss ih => exact List.forall_mem_cons.mpr ⟨h.append.1, ih h.append.2⟩

lemma Exp.tail_eq {e e' : Exp} {r r' : List Char} (he : Readable e.labels)
    (he' : Readable e'.labels) (hr : Breaks r) (hr' : Breaks r') (h : e.chars ++ r = e'.chars ++ r') :
    e.head = e'.head ∧ e.tail ++ r = e'.tail ++ r' := by
  rw [e.chars_eq, e'.chars_eq, List.append_assoc, List.append_assoc] at h
  exact Head.append_inj (isReadable_head he) (isReadable_head he') (e.breaks_tail hr)
    (e'.breaks_tail hr') h

lemma Stm.tail_eq {s s' : Stm} {r r' : List Char} (hs : Readable s.labels)
    (hs' : Readable s'.labels) (h : s.chars ++ r = s'.chars ++ r') :
    s.head = s'.head ∧ s.tail ++ r = s'.tail ++ r' := by
  rw [s.chars_eq, s'.chars_eq, List.append_assoc, List.append_assoc] at h
  exact Head.append_inj (isReadable_head hs) (isReadable_head hs') (s.breaks_tail r)
    (s'.breaks_tail r') h

lemma label_append_inj {l l' : Label} {r r' : List Char} (hl : l.isReadable = true)
    (hl' : l'.isReadable = true) (h : (Head.label l).word ++ r = (Head.label l').word ++ r')
    (hr : Breaks r) (hr' : Breaks r') : l = l' ∧ r = r' := by
  have hh : (Head.label l).IsReadable := hl
  have hh' : (Head.label l').IsReadable := hl'
  obtain ⟨heq, rfl⟩ := Head.append_inj hh hh' hr hr' h
  exact ⟨Head.label.inj heq, rfl⟩

lemma Exp.exists_lexeme (e : Exp) (h : Readable e.labels) :
    ∃ w r, e.chars = w ++ r ∧ IsLexeme w :=
  ⟨_, _, e.chars_eq, Head.isLexeme_word (isReadable_head h)⟩

lemma Stm.exists_lexeme (s : Stm) (h : Readable s.labels) :
    ∃ w r, s.chars = w ++ r ∧ IsLexeme w :=
  ⟨_, _, s.chars_eq, Head.isLexeme_word (isReadable_head h)⟩

mutual

lemma Exp.reads (e : Exp) (he : Readable e.labels) :
    Reads Exp.chars (fun e => Readable e.labels) e := by
  intro e' r r' he' h hr hr'
  obtain ⟨hhead, htail⟩ := Exp.tail_eq he he' hr hr' h
  -- the first words leave only expressions of one form
  cases e <;> cases e' <;> simp only [Exp.head, reduceCtorEq, Head.number.injEq, Head.label.injEq,
    Head.temp.injEq, Head.keyword.injEq, Keyword.op.injEq] at hhead <;>
    simp only [Exp.tail, List.nil_append, List.cons_append, List.append_assoc, List.cons.injEq,
      true_and] at htail
  case const.const => exact ⟨congrArg _ (Int64.toInt_inj.mp hhead), htail⟩
  case name.name => exact ⟨congrArg _ hhead, htail⟩
  case temp.temp => exact ⟨congrArg _ hhead, htail⟩
  case mem.mem a a' =>
    have ha' : Readable a'.labels := he'
    obtain ⟨rfl, rfl⟩ := (a.reads he).mark ha' rfl htail
    exact ⟨rfl, rfl⟩
  case binop.binop op a b op' a' b' =>
    obtain ⟨rfl, hrest⟩ := (a.reads he.append.1).mark he'.append.1 rfl htail
    obtain ⟨rfl, rfl⟩ := (b.reads he.append.2).mark he'.append.2 rfl (List.cons.inj hrest).2
    exact ⟨by rw [hhead], rfl⟩
  case call.call f args f' args' =>
    obtain ⟨rfl, hrest⟩ := label_append_inj he.cons.1 he'.cons.1 htail rfl rfl
    obtain ⟨rfl, rfl⟩ := Reads.listed rfl ⟨rfl, by decide⟩ (by decide) Exp.exists_lexeme
      (Exp.readsAll args he.cons.2) he.cons.2.ofAll he'.cons.2.ofAll (List.cons.inj hrest).2
    exact ⟨rfl, rfl⟩
  case eseq.eseq s a s' a' =>
    obtain ⟨rfl, hrest⟩ := (s.reads he.append.1).mark he'.append.1 rfl htail
    obtain ⟨rfl, rfl⟩ := (a.reads he.append.2).mark he'.append.2 rfl (List.cons.inj hrest).2
    exact ⟨rfl, rfl⟩

lemma Exp.readsAll (es : List Exp) (hes : Readable (Exp.labelsAll es)) :
    ∀ e ∈ es, Reads Exp.chars (fun e => Readable e.labels) e := by
  cases es with
  | nil => exact List.forall_mem_nil _
  | cons e es =>
    exact List.forall_mem_cons.mpr ⟨e.reads hes.append.1, Exp.readsAll es hes.append.2⟩

lemma Stm.reads (s : Stm) (hs : Readable s.labels) :
    Reads Stm.chars (fun s => Readable s.labels) s := by
  intro s' r r' hs' h hr hr'
  obtain ⟨hhead, htail⟩ := Stm.tail_eq hs hs' h
  cases s <;> cases s' <;> simp only [Stm.head, reduceCtorEq, Head.label.injEq,
    Head.keyword.injEq] at hhead <;>
    simp only [Stm.tail, List.nil_append, List.cons_append, List.append_assoc, List.cons.injEq,
      true_and] at htail
  case move.move a b a' b' =>
    obtain ⟨rfl, hrest⟩ := (a.reads hs.append.1).mark hs'.append.1 rfl htail
    simp only [List.cons.injEq, true_and] at hrest
    obtain ⟨rfl, rfl⟩ := b.reads hs.append.2 _ _ _ hs'.append.2 hrest hr hr'
    exact ⟨rfl, rfl⟩
  case exp.exp a a' =>
    obtain ⟨rfl, rfl⟩ := a.reads hs _ _ _ hs' htail hr hr'
    exact ⟨rfl, rfl⟩
  case seq.seq ss ss' =>
    obtain ⟨rfl, rfl⟩ := Reads.listed rfl ⟨rfl, by decide⟩ (by decide) Stm.exists_lexeme
      (Stm.readsAll ss hs) hs.ofSeq hs'.ofSeq htail
    exact ⟨rfl, rfl⟩
  case cjump.cjump a l m a' l' m' =>
    obtain ⟨hl, hm, ha⟩ := And.imp_right Readable.cons hs.cons
    obtain ⟨hl', hm', ha'⟩ := And.imp_right Readable.cons hs'.cons
    obtain ⟨rfl, hrest⟩ := (a.reads ha).mark ha' rfl htail
    obtain ⟨rfl, hlast⟩ := label_append_inj hl hl' hrest rfl rfl
    obtain ⟨rfl, rfl⟩ := label_append_inj hm hm' (List.cons.inj hlast).2 hr hr'
    exact ⟨rfl, rfl⟩
  case jump.jump l l' =>
    obtain ⟨rfl, rfl⟩ := label_append_inj hs.cons.1 hs'.cons.1 htail hr hr'
    exact ⟨rfl, rfl⟩
  case label.label => exact ⟨congrArg _ hhead, htail⟩

lemma Stm.readsAll (ss : List Stm) (hss : Readable (Stm.labelsAll ss)) :
    ∀ s ∈ ss, Reads Stm.chars (fun s => Readable s.labels) s := by
  cases ss with
  | nil => exact List.forall_mem_nil _
  | cons s ss =>
    exact List.forall_mem_cons.mpr ⟨s.reads hss.append.1, Stm.readsAll ss hss.append.2⟩

end

end Trees

/-- Different expressions print as different texts, and so do different statements. -/
theorem text_unambiguous :
    (∀ e e' : Exp, Readable e.labels → Readable e'.labels →
      e.text .plain = e'.text .plain → e = e') ∧
    ∀ s s' : Stm, Readable s.labels → Readable s'.labels →
      s.text .plain = s'.text .plain → s = s' := by
  constructor
  · intro e e' he he' h
    have hchars : e.chars ++ [] = e'.chars ++ [] := by
      rw [Exp.chars, Exp.chars, h]
    exact (e.reads he e' [] [] he' hchars trivial trivial).1
  · intro s s' hs hs' h
    have hchars : s.chars ++ [] = s'.chars ++ [] := by
      rw [Stm.chars, Stm.chars, h]
    exact (s.reads hs s' [] [] hs' hchars trivial trivial).1

def callAfterBoth : Exp :=
  .call (.named "f_1") [.eseq (.seq [.label (.anonymous 2), .exp (.const (-3))]) (.temp ⟨4⟩),
    .name .framePointer]

def callAfterEach : Exp :=
  .call (.named "f_1") [.eseq (.seq [.label (.anonymous 2)]) (.temp ⟨4⟩),
    .eseq (.exp (.const (-3))) (.name .framePointer)]

theorem text_unambiguous_call :
    Readable callAfterBoth.labels ∧ Readable callAfterEach.labels ∧
      callAfterBoth.text .plain ≠ callAfterEach.text .plain ∧
      (Stm.exp callAfterBoth).text .plain ≠ (Stm.exp callAfterEach).text .plain := by
  have h : Readable callAfterBoth.labels := by decide
  have h' : Readable callAfterEach.labels := by decide
  refine ⟨h, h', fun he => ?_, fun he => ?_⟩
  · exact absurd (text_unambiguous.1 _ _ h h' he) (by decide)
  · exact absurd (text_unambiguous.2 (.exp callAfterBoth) (.exp callAfterEach) h h' he) (by decide)

-- a label in capitals can be taken for a temporary
example : (Exp.name (.named "T0")).text .plain = (Exp.temp ⟨0⟩).text .plain := rfl

end Code

end BlockLang
