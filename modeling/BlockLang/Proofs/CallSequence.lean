import BlockLang.Lowering
import BlockLang.Proofs.ThreadSteps
import BlockLang.Proofs.Words

/-! How a call changes memory and the registers: the caller saves its frame pointer below the stack
pointer, and the arguments are stored from the stack pointer on. -/

namespace BlockLang

open Code

def Word.allBytes (ws : List Word) : List UInt8 := ws.flatMap Word.toBytes

lemma Word.length_allBytes (ws : List Word) : (allBytes ws).length = 8 * ws.length := by
  induction ws with
  | nil => rfl
  | cons w ws ih =>
    rw [allBytes, List.flatMap_cons, List.length_append, Word.length_toBytes, List.length_cons]
    rw [allBytes] at ih
    omega

namespace Memory

variable {m : Memory} {a b : Int} {ws : List Word}

lemma setBytes_append (bytes : Array UInt8) (start : Nat) (xs ys : List UInt8) :
    setBytes bytes start (xs ++ ys) = setBytes (setBytes bytes start xs) (start + xs.length) ys := by
  induction xs generalizing bytes start with
  | nil => rfl
  | cons x xs ih =>
    rw [List.cons_append, setBytes, ih, setBytes, List.length_cons]
    congr 1
    omega

lemma write_append (ha : 0 ≤ a) (xs ys : List UInt8) :
    m.write a (xs ++ ys) = (m.write a xs).write (a + xs.length) ys := by
  have hs : (a + xs.length).toNat = a.toNat + xs.length := by omega
  rw [write, write, setBytes_append, write, hs]

lemma write_cons (ha : 0 ≤ a) (w : Word) (ws : List Word) :
    m.write a (Word.allBytes (w :: ws)) = (m.write a w.toBytes).write (a + 8) (Word.allBytes ws) := by
  rw [Word.allBytes, List.flatMap_cons, write_append ha, Word.length_toBytes]
  rfl

lemma load_writeAll_of_clear (ha : 0 ≤ a) (h : b + 8 ≤ a ∨ a + 8 * ws.length ≤ b) :
    (m.write a (Word.allBytes ws)).load b = m.load b := by
  induction ws generalizing m a with
  | nil => rfl
  | cons w ws ih =>
    rw [List.length_cons] at h
    rw [write_cons ha, ih (by omega) (by omega), load_write_of_clear ha]
    rcases h with h | h
    · exact .inr h
    · left
      omega

lemma load_writeAll (ha : 0 ≤ a) (h : a + 8 * ws.length ≤ m.size) {i : Nat} {w : Word}
    (hi : ws[i]? = some w) : (m.write a (Word.allBytes ws)).load (a + 8 * i) = .ok w := by
  induction ws generalizing m a i with
  | nil => simp at hi
  | cons v ws ih =>
    rw [List.length_cons] at h
    rw [write_cons ha]
    cases i with
    | zero =>
      obtain rfl : v = w := by simpa using hi
      rw [load_writeAll_of_clear (by omega) (by left; simp)]
      have hh : m.holds a 8 = true := holds_iff.mpr ⟨ha, by omega⟩
      simpa using load_write (w := v) hh
    | succ i =>
      have hload := ih (m := m.write a v.toBytes) (a := a + 8) (by omega)
        (by rw [size_write]; omega) (by simpa using hi)
      rw [← hload]
      congr 1
      push_cast
      omega

end Memory

namespace Machine

variable {m : Machine} {a : Int}

lemma storeAll_ok {ws : List Word} (ha : 0 ≤ a) (h : a + 8 * ws.length ≤ m.memory.size) :
    storeAll a ws m = .ok () { m with memory := m.memory.write a (Word.allBytes ws) } := by
  induction ws generalizing m a with
  | nil => rfl
  | cons w ws ih =>
    rw [List.length_cons] at h
    have hh : m.memory.holds a 8 = true := Memory.holds_iff.mpr ⟨ha, by omega⟩
    have hs : a + 8 + 8 * ws.length ≤ (m.memory.write a w.toBytes).size := by
      rw [Memory.size_write]
      omega
    rw [Memory.write_cons ha]
    refine Exec.bind_ok.mpr ⟨(), _, store_of_holds hh, ?_⟩
    generalize m.memory.write a w.toBytes = memory at *
    exact ih (m := { m with memory }) (Int.add_nonneg ha (by decide)) hs

def saved (m : Machine) (oldFp : Int) : Machine :=
  { m with memory := m.memory.write (m.sp - oldFp) (Word.toBytes (.ofInt m.fp)) }

section Saved

variable (m : Machine) (n : Int)

@[simp] lemma sp_saved : (m.saved n).sp = m.sp := by simp only [saved]

@[simp] lemma fp_saved : (m.saved n).fp = m.fp := by simp only [saved]

@[simp] lemma size_saved : (m.saved n).memory.size = m.memory.size := by
  simp only [saved, Memory.size_write]

@[simp] lemma staticEnd_saved : (m.saved n).memory.staticEnd = m.memory.staticEnd := by
  simp only [saved, Memory.staticEnd_write]

lemma load_saved {m : Machine} {n : Int} (h : m.memory.holds (m.sp - n) 8 = true) :
    (m.saved n).memory.load (m.sp - n) = .ok (.ofInt m.fp) := by
  simp only [saved]
  exact Memory.load_write h

end Saved

def entered (m : Machine) (r : Routine) (args : List Word) : Machine :=
  { m with
    memory := m.memory.write m.sp (Word.allBytes args)
    fp := m.sp
    sp := m.sp - r.frame.size }

end Machine

namespace Routine

variable {r : Routine} {args : List Word} {d : Destination} {m : Machine}

lemma enter_eq (hsp : 0 ≤ m.sp) (hargs : m.sp + 8 * args.length ≤ m.memory.size) :
    r.enter args d m =
      if m.sp - r.frame.size < m.memory.staticEnd then .error .stackOverflow (m.entered r args)
      else .ok { routine := r, destination := d } (m.entered r args) := by
  have hstore := Machine.storeAll_ok hsp hargs
  have hend := Memory.staticEnd_write m.memory m.sp (Word.allBytes args)
  by_cases hroom : m.sp - r.frame.size < m.memory.staticEnd
  · rw [if_pos hroom]
    refine Exec.bind_error.mpr (.inr ⟨m, m, rfl, Exec.bind_error.mpr (.inr ⟨(), _, hstore, ?_⟩)⟩)
    refine Exec.bind_error.mpr (.inr ⟨(), m.entered r args, rfl, ?_⟩)
    refine Exec.bind_error.mpr (.inr ⟨_, _, rfl, ?_⟩)
    have hover : (m.entered r args).sp < (m.entered r args).memory.staticEnd := hend ▸ hroom
    rw [if_pos hover]
    rfl
  · rw [if_neg hroom]
    refine Exec.bind_ok.mpr ⟨m, m, rfl, Exec.bind_ok.mpr ⟨(), _, hstore, ?_⟩⟩
    refine Exec.bind_ok.mpr ⟨(), m.entered r args, rfl, Exec.bind_ok.mpr ⟨_, _, rfl, ?_⟩⟩
    have hfits : ¬(m.entered r args).sp < (m.entered r args).memory.staticEnd := hend ▸ hroom
    rw [if_neg hfits]
    rfl

end Routine

namespace Activation

open Lowering

variable {image : Image} {a : Activation} {m : Machine} {n : Int}

lemma eval_advance : ∀ x : Exp, a.advance.eval m x = a.eval m x
  | .const _ | .name _ | .temp _ => rfl
  | .mem x => by simp only [eval, eval_advance x]
  | .binop _ x y => by simp only [eval, eval_advance x, eval_advance y]
  | .call _ _ | .eseq _ _ => rfl

lemma evalAll_advance (xs : List Exp) : a.advance.evalAll m xs = a.evalAll m xs := by
  induction xs with
  | nil => rfl
  | cons x xs ih => simp only [evalAll, eval_advance, ih]

lemma toInt_ofInt_sub {x y : Int} (h0 : -wordBound ≤ x - y)
    (h : x - y < wordBound) :
    (Int64.ofInt x - Int64.ofInt y).toInt = x - y := by
  rw [← Int64.ofInt_sub]
  exact Int64.toInt_ofInt_of_le h0 h

lemma place_saveFp (h0 : -wordBound ≤ m.sp - n) (h : m.sp - n < wordBound) :
    a.place m (.mem (.binop .sub (.name .stackPointer) (.const (.ofInt n)))) =
      .ok (.memory (m.sp - n)) := by
  rw [← toInt_ofInt_sub h0 h]
  rfl

lemma step_saveFp (hs : a.routine.code[a.pc]? = some (saveFp n))
    (h0 : -wordBound ≤ m.sp - n) (h : m.sp - n < wordBound) :
    a.step image m =
      if m.memory.holds (m.sp - n) 8 then .ok (.next a.advance) (m.saved n)
      else .error (.addressOutOfBounds (m.sp - n)) m := by
  have hvalue : a.eval m (.name .framePointer) = .ok (.ofInt m.fp) := rfl
  rw [saveFp] at hs
  rw [step_move hs rfl]
  simp only [bind, EStateM.bind, Machine.read, place_saveFp h0 h, hvalue, write, Machine.store_eq]
  by_cases hh : m.memory.holds (m.sp - n) 8 = true
  · simp only [if_pos hh]
    rfl
  · simp only [if_neg hh]

end Activation

end BlockLang
