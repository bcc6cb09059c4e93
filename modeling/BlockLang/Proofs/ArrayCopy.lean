import BlockLang.Proofs.CallingConvention
import BlockLang.Proofs.LinearCode
import BlockLang.Proofs.LoweringCases
import BlockLang.Proofs.Simulation
import BlockLang.Proofs.ThreadRuns

/-! Assignment of whole arrays. The addresses of both arrays go to temporaries, and then word after word
is copied. -/

namespace BlockLang

open Code Source Lowering

namespace Memory

def words (m : Memory) (address : Int) : Nat → List Word
  | 0 => []
  | n + 1 => .ofBytes (getBytes m.bytes address.toNat 8) :: m.words (address + 8) n

@[simp] lemma length_words (m : Memory) (address : Int) (n : Nat) : (m.words address n).length = n := by
  induction n generalizing address with
  | zero => rfl
  | succ n ih => rw [words, List.length_cons, ih]

variable {m : Memory} {d s : Int} {w : Word} {n : Nat}

lemma load_words (h0 : 0 ≤ s) (h : s + 8 * n ≤ m.size) {k : Nat} (hk : k < n) :
    ∃ w, (m.words s n)[k]? = some w ∧ m.load (s + 8 * k) = .ok w := by
  induction n generalizing s k with
  | zero => omega
  | succ n ih =>
    cases k with
    | zero => exact ⟨_, rfl, by simpa using load_of_holds (holds_iff.mpr ⟨h0, by omega⟩)⟩
    | succ k =>
      obtain ⟨w, hw, hload⟩ := ih (s := s + 8) (by omega) (by omega) (Nat.lt_of_succ_lt_succ hk)
      refine ⟨w, hw, ?_⟩
      rw [← hload]
      congr 1
      omega

lemma words_write (hd : 0 ≤ d) (hs : 0 ≤ s) (hn : s + 8 * n ≤ m.size)
    (h : d + 8 ≤ s ∨ s + 8 * n ≤ d) : (m.write d w.toBytes).words s n = m.words s n := by
  induction n generalizing s with
  | zero => rw [words, words]
  | succ n ih =>
    have hh : m.holds s 8 = true := holds_iff.mpr ⟨hs, by omega⟩
    have hload : (m.write d w.toBytes).load s = m.load s :=
      load_write_of_clear hd (by unfold Clear; omega)
    rw [load_of_holds (by rw [holds_write]; exact hh), load_of_holds hh] at hload
    rw [words, words, Except.ok.inj hload, ih (by omega) (by omega) (by omega)]

end Memory

structure Memory.Blocks (m : Memory) (d s : Int) (n : Nat) : Prop where
  target_nonneg : 0 ≤ d
  target_le : d + 8 * n ≤ m.size
  source_nonneg : 0 ≤ s
  source_le : s + 8 * n ≤ m.size
  apart : d = s ∨ d + 8 * n ≤ s ∨ s + 8 * n ≤ d

namespace Machine

/-- The block of `n` words at `d` has become what the block at `s` was, and nothing else has changed. -/
structure Copied (d s : Int) (n : Nat) (m m' : Machine) : Prop where
  words : ∀ k < n, ∃ w, m.memory.load (s + 8 * k) = .ok w ∧ m'.memory.load (d + 8 * k) = .ok w
  outside : ∀ i : Nat, (i : Int) < d ∨ d + 8 * n ≤ i → m'.memory.bytes[i]? = m.memory.bytes[i]?
  source : d + 8 * n ≤ s ∨ s + 8 * n ≤ d →
    ∀ k < n, m'.memory.load (s + 8 * k) = m.memory.load (s + 8 * k)
  rest : m' = { m with memory := { m.memory with bytes := m'.memory.bytes } }

def copy (m : Machine) (d s : Int) (n : Nat) : Machine :=
  { m with memory := m.memory.write d (Word.allBytes (m.memory.words s n)) }

variable {m : Machine} {d s : Int} {n : Nat}

lemma copied_copy (h : m.memory.Blocks d s n) : Copied d s n m (m.copy d s n) where
  words k hk := by
    obtain ⟨w, hw, hload⟩ := Memory.load_words h.source_nonneg h.source_le hk
    exact ⟨w, hload, Memory.load_writeAll h.target_nonneg (by simpa using h.target_le) hw⟩
  outside i hi := Memory.getElem?_write _ h.target_nonneg _ (by simpa [Word.length_allBytes] using hi)
  source hapart k hk :=
    Memory.load_writeAll_of_clear h.target_nonneg (by rw [Memory.length_words]; omega)
  rest := rfl

lemma copy_succ (hd : 0 ≤ d) (hs : 0 ≤ s) (hn : s + 8 * (n + 1 : Nat) ≤ m.memory.size)
    (hapart : d = s ∨ d + 8 * (n + 1 : Nat) ≤ s ∨ s + 8 * (n + 1 : Nat) ≤ d) :
    m.copy d s (n + 1) = (m.copy d s 1).copy (d + 8) (s + 8) n := by
  have hfirst : Word.allBytes (m.memory.words s 1) =
      Word.toBytes (.ofBytes (Memory.getBytes m.memory.bytes s.toNat 8)) := by
    simp [Memory.words, Word.allBytes]
  have hothers : (m.copy d s 1).memory.words (s + 8) n = m.memory.words (s + 8) n := by
    simp only [copy, hfirst]
    exact Memory.words_write hd (by omega) (by omega) (by omega)
  rw [copy, copy, hothers, Memory.words, Memory.write_cons hd]
  simp only [copy, hfirst]

end Machine

namespace Activation

variable (image : Image) {a : Activation} (callers : List Activation) {m : Machine}

lemma eval_offset_temp {t : Temp} {w : Word} (h : a.temps[t]? = some w) {i : Int} (h0 : 0 ≤ w.toInt + i)
    (hi : w.toInt + i < wordBound) :
    ∃ address, a.eval m (Exp.offset (.temp t) i) = .ok address ∧ address.toInt = w.toInt + i := by
  have hw := a.eval_of_temp (m := m) h
  rw [← Int64.ofInt_toInt w] at hw
  exact ⟨_, eval_offset hw, Word.toInt_ofInt h0 hi⟩

lemma becomes_copyWord {dst src : Temp} {d s : Word} (hd : a.temps[dst]? = some d)
    (hs : a.temps[src]? = some s) {i : Int}
    (hat : a.routine.code[a.pc]? =
      some (.move (.mem (Exp.offset (.temp dst) i)) (.mem (Exp.offset (.temp src) i))))
    (hd0 : 0 ≤ d.toInt + i) (hdn : d.toInt + i + 8 ≤ m.memory.size) (hs0 : 0 ≤ s.toInt + i)
    (hsn : s.toInt + i + 8 ≤ m.memory.size) (hsize : m.memory.size < wordBound) :
    Thread.Becomes image ⟨a, callers⟩ m ⟨a.advance, callers⟩
      (m.copy (d.toInt + i) (s.toInt + i) 1) := by
  obtain ⟨target, htarget, hd'⟩ := eval_offset_temp (m := m) hd hd0 (by omega)
  obtain ⟨source, hsource, hs'⟩ := eval_offset_temp (m := m) hs hs0 (by omega)
  have hload := Memory.load_of_holds (m := m.memory) (Memory.holds_iff.mpr ⟨hs0, hsn⟩)
  have hvalue : a.eval m (.mem (Exp.offset (.temp src) i)) =
      .ok (.ofBytes (Memory.getBytes m.memory.bytes (s.toInt + i).toNat 8)) := by
    rw [eval, hsource, ← hload, ← hs']
    rfl
  have h := becomes_move_mem image callers hat htarget hvalue
    (Memory.holds_iff.mpr ⟨by omega, by omega⟩)
  rw [hd'] at h
  simpa [Machine.copy, Memory.words, Word.allBytes] using h

lemma becomes_copyWords {dst src : Temp} {d s : Word} (hd : a.temps[dst]? = some d)
    (hs : a.temps[src]? = some s) {i : Int} {n : Nat}
    (hat : a.routine.At a.pc ((List.range n).map fun (k : Nat) =>
      .move (.mem (Exp.offset (.temp dst) (i + 8 * k))) (.mem (Exp.offset (.temp src) (i + 8 * k)))))
    (hd0 : 0 ≤ d.toInt + i) (hdn : d.toInt + i + 8 * n ≤ m.memory.size) (hs0 : 0 ≤ s.toInt + i)
    (hsn : s.toInt + i + 8 * n ≤ m.memory.size) (hsize : m.memory.size < wordBound)
    (hapart : d.toInt = s.toInt ∨ d.toInt + 8 * n ≤ s.toInt ∨ s.toInt + 8 * n ≤ d.toInt) :
    Thread.Becomes image ⟨a, callers⟩ m ⟨{ a with pc := a.pc + n }, callers⟩
      (m.copy (d.toInt + i) (s.toInt + i) n) := by
  induction n generalizing a m i with
  | zero => exact .refl
  | succ n ih =>
    rw [List.range_succ_eq_map, List.map_cons, List.map_map, Routine.at_cons] at hat
    obtain ⟨hfirst, hrest⟩ := hat
    have hwhole : (m.copy (d.toInt + i) (s.toInt + i) 1).memory.size = m.memory.size :=
      Memory.size_write _ _ _
    have hone := becomes_copyWord image callers hd hs hfirst (by omega)
      (by omega) (by omega) (by omega) hsize
    simp only [Nat.cast_zero, Int.mul_zero, Int.add_zero] at hone
    have hothers := ih (a := a.advance) (m := m.copy (d.toInt + i) (s.toInt + i) 1) (i := i + 8) hd hs
      (by simpa [advance, Function.comp_def, Int.mul_add, Int.add_assoc, Int.add_comm 8] using hrest)
      (by omega) (by omega) (by omega) (by omega) (by omega) (by omega)
    rw [Machine.copy_succ hd0 hs0 hsn (by omega)]
    refine hone.trans ?_
    simpa [advance, Int.add_assoc, Nat.add_assoc, Nat.add_comm 1] using hothers

end Activation

namespace Lowering

variable {scope : Scope} {level : Nat}

lemma temps_offset (x : Exp) (n : Int) : (x.offset n).temps = x.temps := by
  unfold Exp.offset
  split
  · rfl
  · simp [Exp.temps]

lemma temps_staticLink (k : Nat) : (Exp.staticLink k).temps = [] := by
  induction k with
  | zero => rfl
  | succ k ih => exact ih

lemma temps_addressOf (level : Nat) (access : Access) : (addressOf level access).temps = [] := by
  cases access with
  | global size label => rfl
  | stack size offset declared => exact (temps_offset _ _).trans (temps_staticLink _)
  | param size offset declared => exact (temps_offset _ _).trans (temps_staticLink _)

lemma temps_variableValue (type : Ty) {x : Exp} (h : x.temps = []) (access : Access) :
    (variableValue type x access).temps = [] := by
  cases access with
  | param size offset declared => exact h
  | global size label => cases ha : type.isArray <;> simpa [variableValue, ha, Exp.temps] using h
  | stack size offset declared => cases ha : type.isArray <;> simpa [variableValue, ha, Exp.temps] using h

lemma isPure_unary {op : UnaryOp} {x : Exp} : (unary op x).isPure = x.isPure := by
  cases op <;> simp [unary, Exp.isPure]

lemma temps_unary {op : UnaryOp} {x : Exp} : (unary op x).temps = x.temps := by
  cases op <;> simp [unary, Exp.temps]

lemma isPure_element {x y : Exp} {type : Ty} :
    (element x y type).isPure = (x.isPure && y.isPure) := by
  cases h : type.isArray <;> simp [element, h, Exp.isPure]

lemma temps_element {x y : Exp} {type : Ty} : (element x y type).temps = x.temps ++ y.temps := by
  cases h : type.isArray <;> simp [element, h, Exp.temps]

lemma expr_temps_of_isPure (e : Expr) {st st' : State} {r : Fragment}
    (h : (expr scope level e).run st = .ok (r, st')) (hp : r.toExp.isPure = true) :
    r.toExp.temps = [] := by
  cases e with
  | literal n v =>
    cases v with
    | integer w =>
      obtain ⟨rfl, -⟩ := expr_integer_ok.mp h
      rfl
    | logical b =>
      obtain ⟨rfl, -⟩ := expr_logical_ok.mp h
      rfl
    | string text =>
      obtain ⟨rfl, -⟩ := expr_string_ok.mp h
      rfl
  | name n x =>
    obtain ⟨_, access, type, -, -, -, -, rfl, -⟩ := expr_name_ok.mp h
    exact temps_variableValue type (temps_addressOf level access) access
  | unary n op x =>
    obtain ⟨q, hx, rfl⟩ := expr_unary_ok.mp h
    exact temps_unary.trans (expr_temps_of_isPure x hx (isPure_unary.symm.trans hp))
  | binary n op x y =>
    cases op with
    | compute op =>
      obtain ⟨q, _, q', hx, hy, rfl⟩ := expr_compute_ok.mp h
      obtain ⟨hq, hq'⟩ := (Bool.and_eq_true _ _).mp hp
      exact List.append_eq_nil_iff.mpr ⟨expr_temps_of_isPure x hx hq, expr_temps_of_isPure y hy hq'⟩
    | index =>
      obtain ⟨_, type, -, -, q, _, q', hx, hy, rfl⟩ := expr_index_ok.mp h
      obtain ⟨hq, hq'⟩ := (Bool.and_eq_true _ _).mp (isPure_element.symm.trans hp)
      exact temps_element.trans (List.append_eq_nil_iff.mpr
        ⟨expr_temps_of_isPure x hx hq, expr_temps_of_isPure y hy hq'⟩)
    | assign =>
      obtain ⟨type, -, h⟩ := expr_assign_ok.mp h
      split at h
      · obtain ⟨-, _, _, _, -, -, rfl⟩ := h
        cases hp
      · obtain ⟨_, _, _, -, -, -, rfl⟩ := h
        cases hp
  | call n f args =>
    obtain ⟨_, _, _, -, -, rfl⟩ := expr_call_ok.mp h
    cases hp
  | block n es =>
    obtain ⟨init, last, -, rfl⟩ := expr_block_ok.mp h
    cases last with
    | none => rfl
    | some q => cases q <;> cases hp
  | ifThen n c p =>
    obtain ⟨_, _, _, -, -, rfl⟩ := expr_ifThen_ok.mp h
    cases hp
  | ifElse n c p q =>
    obtain ⟨_, _, _, _, _, -, -, -, rfl⟩ := expr_ifElse_ok.mp h
    cases hp
  | whileLoop n c b =>
    obtain ⟨_, _, _, -, -, rfl⟩ := expr_whileLoop_ok.mp h
    cases hp
  | forLoop n c low high step b =>
    obtain ⟨_, _, _, _, _, _, _, _, _, -, -, -, -, -, -, rfl⟩ := expr_forLoop_ok.mp h
    cases hp
  | whereDefs n x m ds =>
    obtain ⟨_, -, hx⟩ := expr_whereDefs_ok.mp h
    exact expr_temps_of_isPure x hx hp

lemma copyWords_eq (dst src : Temp) (n : Nat) :
    copyWords dst src (8 * n) = (List.range n).map fun (k : Nat) =>
      .move (.mem (Exp.offset (.temp dst) (0 + 8 * k))) (.mem (Exp.offset (.temp src) (0 + 8 * k))) := by
  have hn : ((8 * (n : Int) + 7) / 8).toNat = n := by omega
  simp [copyWords, wordOffsets, hn, Function.comp_def]

lemma canonical_of_mem_copyWords {dst src : Temp} {size : Int} {s : Stm}
    (h : s ∈ copyWords dst src size) : s.Canonical := by
  obtain ⟨i, -, rfl⟩ := List.mem_map.mp h
  have hp (t : Temp) : (Exp.mem (Exp.offset (.temp t) i)).isPure = true := isPure_offset rfl i
  exact .move (hp dst) (hp src)

def operands (dst src : Temp) (x y : Exp) : Stm := .seq [.move (.temp dst) x, .move (.temp src) y]

lemma length_copyWords (dst src : Temp) (n : Nat) : (copyWords dst src (8 * n)).length = n := by
  rw [copyWords_eq, List.length_map, List.length_range]

lemma linearize_copy (dst src : Temp) (x y : Exp) (n : Nat) (next : Temp) :
    ((Stm.seq (.move (.temp dst) x :: .move (.temp src) y :: copyWords dst src (8 * n))).linearize
        next).1.statements =
      ((operands dst src x y).linearize next).1.statements ++ copyWords dst src (8 * n) := by
  have h (t : Temp) : ((Stm.seq (copyWords dst src (8 * n))).flat t).code = copyWords dst src (8 * n) :=
    congrArg Flat.code (Stm.flatAll_of_canonical (fun _ => canonical_of_mem_copyWords) t)
  simp [Stm.linearize, Stm.statements, operands, Stm.flat_seq_cons, Stm.flat_seq_nil, h]

lemma linearize_operands {x y : Exp} (hx : x.isPure = true) (hy : y.isPure = true)
    (dst src next : Temp) : ((operands dst src x y).linearize next).1.statements =
      [.move (.temp dst) x, .move (.temp src) y] := by
  simp [Stm.linearize, Stm.statements, operands, Stm.flat_seq_cons, Stm.flat_seq_nil,
    Stm.flat_move_temp, Exp.not_isCall_of_isPure, Exp.operand_of_isPure, hx, hy]

end Lowering

lemma Ident.ne_next {role : Role} (i : Ident role) : i ≠ i.next := by
  intro h
  have hn := congrArg Ident.toNat h
  rw [next_eq_advance, toNat_advance] at hn
  have hlt := i.toNat_lt
  simp only [UInt32.size] at hn hlt
  omega

namespace Activation

variable (image : Image) {a : Activation} (callers : List Activation) {m : Machine}

lemma isPure_of_eval : ∀ {x : Exp} {w : Word}, a.eval m x = .ok w → x.isPure = true
  | .const _, _, _ | .name _, _, _ | .temp _, _, _ => rfl
  | .mem x, _, h => by
    cases hx : a.eval m x with
    | error e =>
      rw [eval, hx] at h
      cases h
    | ok v => exact isPure_of_eval (x := x) hx
  | .binop op x y, _, h => by
    rw [eval] at h
    cases hx : a.eval m x with
    | error e =>
      rw [hx] at h
      cases h
    | ok v =>
      rw [hx] at h
      cases hy : a.eval m y with
      | error e =>
        rw [hy] at h
        cases h
      | ok v' => exact (Bool.and_eq_true _ _).mpr ⟨isPure_of_eval hx, isPure_of_eval hy⟩
  | .call _ _, _, h | .eseq _ _, _, h => by cases h

lemma eval_setTemp_of_not_mem {t : Temp} (w : Word) : ∀ {x : Exp}, t ∉ x.temps →
    (a.setTemp t w).eval m x = a.eval m x
  | .const _, _ | .name _, _ | .call _ _, _ | .eseq _ _, _ => rfl
  | .temp t', h => by
    have hne : t ≠ t' := by simpa [Exp.temps] using h
    simp only [eval, getElem?_setTemp, if_neg hne]
  | .mem x, h => by simp only [eval, eval_setTemp_of_not_mem w (x := x) h]
  | .binop op x y, h => by
    obtain ⟨hx, hy⟩ : t ∉ x.temps ∧ t ∉ y.temps := by simpa [Exp.temps] using h
    simp only [eval, eval_setTemp_of_not_mem w hx, eval_setTemp_of_not_mem w hy]

structure Past (a : Activation) (n : Nat) (b : Activation) : Prop where
  routine : b.routine = a.routine
  destination : b.destination = a.destination
  pc : b.pc = a.pc + n

lemma Past.trans {b c : Activation} {j k : Nat} (h : a.Past j b) (h' : b.Past k c) :
    a.Past (j + k) c where
  routine := h'.routine.trans h.routine
  destination := h'.destination.trans h.destination
  pc := by rw [h'.pc, h.pc, Nat.add_assoc]

lemma becomes_operands {x y : Exp} {dst src : Temp} (hne : dst ≠ src) (hy : y.temps = []) {d s : Word}
    (hat : a.routine.At a.pc [.move (.temp dst) x, .move (.temp src) y]) (hd : a.eval m x = .ok d)
    (hs : a.eval m y = .ok s) :
    ∃ b, Thread.Becomes image ⟨a, callers⟩ m ⟨b, callers⟩ m ∧ a.Past 2 b ∧
      b.temps[dst]? = some d ∧ b.temps[src]? = some s := by
  obtain ⟨hfirst, hsecond, -⟩ := hat
  have hs' : (a.setTemp dst d).advance.eval m y = .ok s := by
    rw [eval_advance, eval_setTemp_of_not_mem d (by simp [hy]), hs]
  refine ⟨_, (becomes_move_temp _ _ hfirst hd).trans (becomes_move_temp _ _ hsecond hs'),
    ⟨rfl, rfl, rfl⟩, ?_, ?_⟩
  · change (((a.setTemp dst d).advance).setTemp src s).temps[dst]? = some d
    rw [getElem?_setTemp, if_neg hne.symm]
    change (a.setTemp dst d).temps[dst]? = some d
    rw [getElem?_setTemp, if_pos rfl]
  · change (((a.setTemp dst d).advance).setTemp src s).temps[src]? = some s
    rw [getElem?_setTemp, if_pos rfl]

lemma becomes_copy {dst src : Temp} {d s : Word} {n : Nat}
    (hat : a.routine.At a.pc (copyWords dst src (8 * n))) (hd : a.temps[dst]? = some d)
    (hs : a.temps[src]? = some s) (hblocks : m.memory.Blocks d.toInt s.toInt n)
    (hsize : m.memory.size < wordBound) :
    ∃ b m', Thread.Becomes image ⟨a, callers⟩ m ⟨b, callers⟩ m' ∧ a.Past n b ∧
      m.Copied d.toInt s.toInt n m' := by
  obtain ⟨hd0, hdn, hs0, hsn, hapart⟩ := hblocks
  rw [copyWords_eq] at hat
  have h := becomes_copyWords image callers hd hs hat (by omega) (by omega)
    (by omega) (by omega) hsize hapart
  rw [Int.add_zero, Int.add_zero] at h
  exact ⟨_, _, h, ⟨rfl, rfl, rfl⟩, Machine.copied_copy ⟨hd0, hdn, hs0, hsn, hapart⟩⟩

end Activation

/-- An assignment of arrays copies the block of the right side to the left side. The operands may be
values without effects, or any code that leaves the addresses of the blocks in the temporaries. -/
theorem array_assignment_copies_block {scope : Scope} {level : Nat} (n : Node) {l r : Expr} {type : Ty}
    (size : Nat) {x y : Fragment} (st : Lowering.State) {st₁ st' : Lowering.State}
    (typed : scope.tables.types[l.node.id]? = some type) (array : type.isArray = true)
    (sized : type.size = 8 * size) (storage : isStorage l = true)
    (left : (expr scope level l).run { st with nextTemp := st.nextTemp.next.next } = .ok (x, st₁))
    (right : (expr scope level r).run st₁ = .ok (y, st')) :
    ∃ code, (expr scope level (.binary n .assign l r)).run st = .ok (.effect code, st') ∧
      ∀ (image : Image) (callers : List Activation) (next : Temp) (a : Activation) (m : Machine)
        (d s : Word), a.routine.At a.pc (code.linearize next).1.statements →
        (a.eval m x.toExp = .ok d → a.eval m y.toExp = .ok s →
          m.memory.size < wordBound → m.memory.Blocks d.toInt s.toInt size →
          ∃ b m', Thread.Becomes image ⟨a, callers⟩ m ⟨b, callers⟩ m' ∧
            a.Past (code.linearize next).1.statements.length b ∧ m.Copied d.toInt s.toInt size m') ∧
        ∀ b m₁, Thread.Becomes image ⟨a, callers⟩ m ⟨b, callers⟩ m₁ →
          a.Past ((operands st.nextTemp st.nextTemp.next x.toExp y.toExp).linearize
            next).1.statements.length b →
          b.temps[st.nextTemp]? = some d → b.temps[st.nextTemp.next]? = some s →
          m₁.memory.size < wordBound → m₁.memory.Blocks d.toInt s.toInt size →
          ∃ c m', Thread.Becomes image ⟨a, callers⟩ m ⟨c, callers⟩ m' ∧
            a.Past (code.linearize next).1.statements.length c ∧
            m₁.Copied d.toInt s.toInt size m' := by
  have hlower := expr_assign_ok (n := n).mpr ⟨type, typed, (if_pos array).mpr
    ⟨storage, x, st₁, y, left, right, rfl⟩⟩
  refine ⟨_, hlower, fun image callers next a m d s hat => ?_⟩
  rw [sized] at hat ⊢
  have hcode := linearize_copy st.nextTemp st.nextTemp.next x.toExp y.toExp size next
  rw [hcode] at hat ⊢
  rw [List.length_append, length_copyWords]
  obtain ⟨hoperands, hcopy⟩ := Routine.at_append.mp hat
  have hafter : ∀ b m₁, Thread.Becomes image ⟨a, callers⟩ m ⟨b, callers⟩ m₁ →
      a.Past ((operands st.nextTemp st.nextTemp.next x.toExp y.toExp).linearize
        next).1.statements.length b →
      b.temps[st.nextTemp]? = some d → b.temps[st.nextTemp.next]? = some s →
      m₁.memory.size < wordBound → m₁.memory.Blocks d.toInt s.toInt size →
      ∃ c m', Thread.Becomes image ⟨a, callers⟩ m ⟨c, callers⟩ m' ∧
        a.Past (((operands st.nextTemp st.nextTemp.next x.toExp y.toExp).linearize
          next).1.statements.length + size) c ∧ m₁.Copied d.toInt s.toInt size m' := by
    intro b m₁ hb hpast hd hs hsize hblocks
    obtain ⟨c, m', hc, hpast', hcopied⟩ := Activation.becomes_copy image callers
      (by rw [hpast.routine, hpast.pc]; exact hcopy) hd hs hblocks hsize
    exact ⟨c, m', hb.trans hc, hpast.trans hpast', hcopied⟩
  refine ⟨fun hd hs hsize hblocks => ?_, hafter⟩
  have htemps := expr_temps_of_isPure r right (Activation.isPure_of_eval hs)
  have hpure := linearize_operands (Activation.isPure_of_eval hd) (Activation.isPure_of_eval hs)
    st.nextTemp st.nextTemp.next next
  rw [hpure] at hoperands hafter ⊢
  obtain ⟨b, hb, hpast, hdst, hsrc⟩ := Activation.becomes_operands image callers
    st.nextTemp.ne_next htemps hoperands hd hs
  exact hafter b m hb hpast hdst hsrc hsize hblocks

/-! Two local arrays of two rows each: a row of one is copied to the other one. -/

namespace RowCopy

def row : Ty := .array 2 .int

def scope : Scope where
  tables :=
    { types := ((((∅ : NodeTable Ty).insert (.ofNat 1) (.array 2 row)).insert (.ofNat 2)
        (.array 2 row)).insert (.ofNat 3) row).insert (.ofNat 4) row
      bindings := ((∅ : NodeTable NodeId).insert (.ofNat 1) (.ofNat 11)).insert (.ofNat 2) (.ofNat 12) }
  frames := ∅
  accesses := ((∅ : NodeTable Access).insert (.ofNat 11) (.stack 32 (-32) 1)).insert (.ofNat 12)
    (.stack 32 (-64) 1)

def target : Expr := .binary (node 3) .index (.name (node 1) "a") (number 5 1)

def source : Expr := .binary (node 4) .index (.name (node 2) "b") (number 6 0)

def rowOf (offset : Int) (i : Word) : Exp := element (addressOf 1 (.stack 32 offset 1)) (.const i) row

lemma target_ok (st : Lowering.State) :
    (expr scope 1 target).run st = .ok (.value (rowOf (-32) 1), st) := by
  have hb : scope.tables.bindings[(node 1).id]? = some (.ofNat 11) := by decide +kernel
  have ha : scope.accesses[(Ident.ofNat 11 : NodeId)]? = some (.stack 32 (-32) 1) := by
    decide +kernel
  have ht : scope.tables.types[(node 1).id]? = some (.array 2 row) := by decide +kernel
  exact expr_index_ok.mpr ⟨2, row, ht, by decide, _, _, _,
    expr_name_ok.mpr ⟨_, _, _, hb, ha, rfl, ht, rfl, rfl⟩, expr_integer_ok.mpr ⟨rfl, rfl⟩, rfl⟩

lemma source_ok (st : Lowering.State) :
    (expr scope 1 source).run st = .ok (.value (rowOf (-64) 0), st) := by
  have hb : scope.tables.bindings[(node 2).id]? = some (.ofNat 12) := by decide +kernel
  have ha : scope.accesses[(Ident.ofNat 12 : NodeId)]? = some (.stack 32 (-64) 1) := by
    decide +kernel
  have ht : scope.tables.types[(node 2).id]? = some (.array 2 row) := by decide +kernel
  exact expr_index_ok.mpr ⟨2, row, ht, by decide, _, _, _,
    expr_name_ok.mpr ⟨_, _, _, hb, ha, rfl, ht, rfl, rfl⟩, expr_integer_ok.mpr ⟨rfl, rfl⟩, rfl⟩

def machine : Machine where
  memory := ((Memory.new 96).write 32 (Word.toBytes 7)).write 40 (Word.toBytes 9)
  fp := 96
  sp := 16
  generator := .ofSeed 0
  console := none

def running (code : List Stm) : Activation where
  routine := ⟨{ label := .named "main", level := 1 }, code.toArray, ∅⟩
  destination := .discard

end RowCopy

theorem array_assignment_copies_block_row :
    ∃ code st, (expr RowCopy.scope 1 (.binary (node 7) .assign RowCopy.target
        RowCopy.source)).run { labels := {} } = .ok (.effect code, st) ∧
      ∃ b m', Thread.Becomes ⟨∅, .named "main"⟩
        ⟨RowCopy.running (code.linearize (.ofNat 2)).1.statements, []⟩ RowCopy.machine ⟨b, []⟩ m' ∧
        m'.memory.load 80 = .ok 7 ∧ m'.memory.load 88 = .ok 9 := by
  have ht : RowCopy.scope.tables.types[RowCopy.target.node.id]? = some RowCopy.row := by decide +kernel
  obtain ⟨code, hcode, h⟩ := array_assignment_copies_block (node 7) 2
    { labels := {} } ht rfl (by decide) rfl (RowCopy.target_ok _) (RowCopy.source_ok _)
  refine ⟨code, _, hcode, ?_⟩
  have hat := Routine.at_toArray { label := .named "main", level := 1 } ∅ []
    (code.linearize (.ofNat 2)).1.statements
  obtain ⟨b, m', hb, -, hcopied⟩ := (h ⟨∅, .named "main"⟩ [] (.ofNat 2) (RowCopy.running _)
    RowCopy.machine 80 32 hat).1 rfl rfl (by decide +kernel)
    ⟨by decide, by decide +kernel, by decide, by decide +kernel, by decide⟩
  obtain ⟨v, hv, hv'⟩ := hcopied.words 0 (by decide)
  obtain ⟨w, hw, hw'⟩ := hcopied.words 1 (by decide)
  have hseven : RowCopy.machine.memory.load 32 = .ok 7 := by decide +kernel
  have hnine : RowCopy.machine.memory.load 40 = .ok 9 := by decide +kernel
  obtain rfl := Except.ok.inj (hseven.symm.trans hv)
  obtain rfl := Except.ok.inj (hnine.symm.trans hw)
  exact ⟨b, m', hb, hv', hw'⟩

end BlockLang
