import BlockLang.Proofs.CallingConvention
import BlockLang.Proofs.FactorialCode
import BlockLang.Proofs.StructuredCompilation
import Mathlib.Data.Nat.Factorial.Basic

/-! Runs of the sample program that computes factorials: how much memory they need, and how they end.
Each call takes a frame of 32 bytes, and there are as many calls at a time as the argument says, but at
least one. -/

namespace BlockLang

open Code Lowering Source

namespace Machine

def written (m : Machine) (a : Int) (w : Word) : Machine :=
  { m with memory := m.memory.write a w.toBytes }

section Written

variable (m : Machine) (a : Int) (w : Word)

@[simp] lemma fp_written : (m.written a w).fp = m.fp := by simp only [written]

@[simp] lemma sp_written : (m.written a w).sp = m.sp := by simp only [written]

@[simp] lemma console_written : (m.written a w).console = m.console := by simp only [written]

@[simp] lemma size_written : (m.written a w).memory.size = m.memory.size := by
  simp only [written, Memory.size_write]

@[simp] lemma staticEnd_written : (m.written a w).memory.staticEnd = m.memory.staticEnd := by
  simp only [written, Memory.staticEnd_write]

variable {m a w} {b : Int}

lemma load_written (h : m.memory.holds a 8 = true) : (m.written a w).memory.load a = .ok w := by
  simp only [written]
  exact Memory.load_write h

lemma load_written_of_clear (ha : 0 ≤ a) (h : Clear a b) :
    (m.written a w).memory.load b = m.memory.load b := by
  simp only [written]
  exact Memory.load_write_of_clear ha h

end Written

def returned (m : Machine) (fp : Int) : Machine := { m with fp, sp := m.fp }

lemma fp_returned (m : Machine) (fp : Int) : (m.returned fp).fp = fp := rfl

lemma sp_returned (m : Machine) (fp : Int) : (m.returned fp).sp = m.fp := rfl

lemma console_returned (m : Machine) (fp : Int) : (m.returned fp).console = m.console := rfl

structure Above (low : Int) (m m' : Machine) : Prop where
  console : m'.console = m.console
  size : m'.memory.size = m.memory.size
  staticEnd : m'.memory.staticEnd = m.memory.staticEnd
  load : ∀ b, low ≤ b → m'.memory.load b = m.memory.load b

namespace Above

variable {low low' : Int} {m m' m'' : Machine}

lemma trans (h : Above low m m') (h' : Above low m' m'') : Above low m m'' where
  console := h'.console.trans h.console
  size := h'.size.trans h.size
  staticEnd := h'.staticEnd.trans h.staticEnd
  load b hb := (h'.load b hb).trans (h.load b hb)

lemma mono (h : Above low m m') (hl : low ≤ low') : Above low' m m' where
  console := h.console
  size := h.size
  staticEnd := h.staticEnd
  load b hb := h.load b (Int.le_trans hl hb)

lemma written (m : Machine) (w : Word) {a : Int} (ha : 0 ≤ a) (h : a + 8 ≤ low) :
    Above low m (m.written a w) where
  console := console_written m a w
  size := size_written m a w
  staticEnd := staticEnd_written m a w
  load b hb := load_written_of_clear ha (.inl (by omega))

lemma returned (h : Above low m m') (fp : Int) : Above low m (m'.returned fp) :=
  ⟨h.console, h.size, h.staticEnd, h.load⟩

end Above

end Machine

namespace Factorial

def value (w : Word) : Word := .ofInt (w.toInt.toNat.factorial : Nat)

lemma value_of_le {w : Word} (h : w.toInt ≤ 1) : value w = 1 := by
  have hone : w.toInt.toNat.factorial = 1 := Nat.factorial_eq_one.mpr (by omega)
  rw [value, hone]
  rfl

lemma toInt_pred {w : Word} (h : 1 < w.toInt) : (w - 1).toInt = w.toInt - 1 := by
  have hmax := w.toInt_lt
  have hpred : w - 1 = Int64.ofInt (w.toInt - 1) := by
    rw [Int64.ofInt_sub, Int64.ofInt_toInt]
    rfl
  rw [hpred]
  exact Int64.toInt_ofInt_of_le (by omega) (by omega)

lemma value_of_lt {w : Word} (h : 1 < w.toInt) : value w = w * value (w - 1) := by
  obtain ⟨n, hn⟩ : ∃ n : Nat, w.toInt.toNat = n + 1 := ⟨w.toInt.toNat - 1, by omega⟩
  have hpred : (w - 1).toInt.toNat = n := by
    rw [toInt_pred h]
    omega
  have hw : Int64.ofInt ((n + 1 : Nat) : Int) = w := by
    rw [← hn, Int.toNat_of_nonneg (by omega), Int64.ofInt_toInt]
  rw [value, value, hpred, hn, Nat.factorial_succ, Int.natCast_mul, Int64.ofInt_mul, hw]

structure Ready (m : Machine) : Prop where
  staticEnd : m.memory.staticEnd = 8
  small : m.memory.size < wordBound
  fp_nonneg : 0 ≤ m.fp
  fp_lt : m.fp < wordBound
  sp_ge : 8 ≤ m.sp
  sp_le : m.sp + 16 ≤ m.memory.size

structure Entered (top fp : Int) (m : Machine) : Prop where
  fp_eq : m.fp = top
  sp_eq : m.sp = top - 32
  saved : m.memory.load (top - 16) = .ok (.ofInt fp)
  staticEnd : m.memory.staticEnd = 8
  small : m.memory.size < wordBound
  fp_nonneg : 0 ≤ fp
  fp_lt : fp < wordBound
  top_ge : 40 ≤ top
  top_le : top + 16 ≤ m.memory.size

namespace Entered

variable {top fp : Int} {m m' : Machine}

lemma written (h : Entered top fp m) {a : Int} (ha : top - 8 ≤ a) (w : Word) :
    Entered top fp (m.written a w) where
  fp_eq := (m.fp_written a w).trans h.fp_eq
  sp_eq := (m.sp_written a w).trans h.sp_eq
  saved := by
    have htop := h.top_ge
    exact (Machine.load_written_of_clear (by omega) (.inr (by omega))).trans h.saved
  staticEnd := (m.staticEnd_written a w).trans h.staticEnd
  small := by
    rw [Machine.size_written]
    exact h.small
  fp_nonneg := h.fp_nonneg
  fp_lt := h.fp_lt
  top_ge := h.top_ge
  top_le := by
    rw [Machine.size_written]
    exact h.top_le

lemma above (h : Entered top fp m) (hfp : m'.fp = m.fp) (hsp : m'.sp = m.sp)
    (ha : m.Above (top - 16) m') : Entered top fp m' where
  fp_eq := hfp.trans h.fp_eq
  sp_eq := hsp.trans h.sp_eq
  saved := (ha.load _ (Int.le_refl _)).trans h.saved
  staticEnd := ha.staticEnd.trans h.staticEnd
  small := by
    rw [ha.size]
    exact h.small
  fp_nonneg := h.fp_nonneg
  fp_lt := h.fp_lt
  top_ge := h.top_ge
  top_le := by
    rw [ha.size]
    exact h.top_le

lemma ready (h : Entered top fp m) : Ready m where
  staticEnd := h.staticEnd
  small := h.small
  fp_nonneg := by
    rw [h.fp_eq]
    have htop := h.top_ge
    omega
  fp_lt := by
    rw [h.fp_eq]
    have htop := h.top_le
    have hsmall := h.small
    omega
  sp_ge := by
    rw [h.sp_eq]
    have htop := h.top_ge
    omega
  sp_le := by
    rw [h.sp_eq]
    have htop := h.top_le
    omega

end Entered

section Cells

variable (image : Image) {a : Activation} (callers : List Activation) {m : Machine} {w : Word}
  {offset : Int}

lemma eval_address (a : Activation) (m : Machine) (offset : Int) :
    a.eval m ((Exp.name .framePointer).offset offset) = .ok (.ofInt (m.fp + offset)) :=
  Activation.eval_offset rfl

lemma eval_cell (h : m.memory.load (m.fp + offset) = .ok w)
    (hsmall : m.memory.size < wordBound) : a.eval m (cell offset) = .ok w := by
  have hh : m.memory.holds (m.fp + offset) 8 = true := by
    by_contra hn
    simp [Memory.load, hn] at h
  obtain ⟨h0, hs⟩ := Memory.holds_iff.mp hh
  rw [cell, Activation.eval, eval_address, ← h]
  change m.memory.load (Int64.ofInt (m.fp + offset)).toInt = _
  rw [Word.toInt_ofInt h0 (by omega)]

lemma becomes_move_cell {v : Exp} (hs : a.routine.code[a.pc]? = some (.move (cell offset) v))
    (hv : a.eval m v = .ok w) (h0 : 0 ≤ m.fp + offset) (hle : m.fp + offset + 8 ≤ m.memory.size)
    (hsmall : m.memory.size < wordBound) :
    Thread.Becomes image ⟨a, callers⟩ m ⟨a.advance, callers⟩ (m.written (m.fp + offset) w) := by
  have haddress := Word.toInt_ofInt h0 (by omega)
  have h := Activation.becomes_move_mem image callers hs (eval_address a m offset) hv
    (by rw [haddress]; exact Memory.holds_iff.mpr ⟨h0, hle⟩)
  rwa [haddress] at h

end Cells

section Call

variable {image : Image} (hf : image.routines[Label.named "fact"]? = some routine)
variable {a : Activation} (callers : List Activation) {m : Machine} {t u : Temp} {w : Word}

def enteredBy (m : Machine) (w : Word) : Machine := (m.saved 16).entered routine [0, w]

lemma entered_enteredBy (h : Ready m) (hroom : 40 ≤ m.sp) (w : Word) :
    Entered m.sp m.fp (enteredBy m w) ∧ (enteredBy m w).memory.load (m.sp + 8) = .ok w ∧
      m.Above (m.sp + 16) (enteredBy m w) := by
  obtain ⟨hend, hsmall, hfp, hfp', -, hsp⟩ := h
  have hsize : (enteredBy m w).memory.size = m.memory.size := by
    simp only [enteredBy, Machine.entered, Memory.size_write, Machine.size_saved]
  have hstatic : (enteredBy m w).memory.staticEnd = m.memory.staticEnd := by
    simp only [enteredBy, Machine.entered, Memory.staticEnd_write, Machine.staticEnd_saved]
  have hconsole : (enteredBy m w).console = m.console := by
    simp only [enteredBy, Machine.entered, Machine.saved]
  have hkept (b : Int) (hb : b + 8 ≤ m.sp ∨ m.sp + 16 ≤ b) :
      (enteredBy m w).memory.load b = (m.saved 16).memory.load b := by
    simp only [enteredBy, Machine.entered, Machine.sp_saved]
    exact Memory.load_writeAll_of_clear (by omega) hb
  refine ⟨⟨?_, ?_, ?_, by omega, by omega, hfp, hfp', hroom, by omega⟩, ?_, hconsole, hsize, hstatic,
    ?_⟩
  · simp only [enteredBy, Machine.entered, Machine.sp_saved]
  · simp only [enteredBy, Machine.entered, Machine.sp_saved]
    rfl
  · rw [hkept _ (by omega)]
    exact Machine.load_saved (Memory.holds_iff.mpr ⟨by omega, by omega⟩)
  · simp only [enteredBy, Machine.entered, Machine.sp_saved]
    exact Memory.load_writeAll (by omega) (by rw [Machine.size_saved]; exact hsp) (i := 1) rfl
  · intro b hb
    rw [hkept b (by omega)]
    exact Machine.load_written_of_clear (by omega) (.inl (by omega))

lemma becomes_save (image : Image) (hat : a.routine.At a.pc (callCode t u)) (h : Ready m)
    (hroom : 16 ≤ m.sp) :
    Thread.Becomes image ⟨a, callers⟩ m ⟨a.advance, callers⟩ (m.saved 16) := by
  have hsp := h.sp_le
  have hsmall := h.small
  have hh : m.memory.holds (m.sp - 16) 8 = true := Memory.holds_iff.mpr ⟨by omega, by omega⟩
  refine Thread.becomes_of_step ?_
  rw [Activation.step_saveFp hat.1 (by omega) (by omega), if_pos hh]

lemma evalAll_arguments (hw : a.temps[u]? = some w) (m : Machine) :
    a.advance.evalAll m [.const 0, .temp u] = .ok [0, w] := by
  have hu : a.advance.temps[u]? = some w := hw
  simp only [Activation.evalAll, Activation.eval, hu]
  rfl

lemma enter_eq (h : Ready m) (w : Word) (d : Destination) :
    routine.enter [0, w] d (m.saved 16) =
      if m.sp < 40 then .error .stackOverflow (enteredBy m w)
      else .ok { routine, destination := d } (enteredBy m w) := by
  obtain ⟨hend, -, -, -, hge, hle⟩ := h
  rw [Routine.enter_eq (by rw [Machine.sp_saved]; omega)
    (by rw [Machine.sp_saved, Machine.size_saved]; exact hle)]
  have hroom : (m.saved 16).sp - routine.frame.size < (m.saved 16).memory.staticEnd ↔ m.sp < 40 := by
    have hsize : routine.frame.size = 32 := rfl
    rw [Machine.sp_saved, Machine.staticEnd_saved, hsize, hend]
    omega
  simp only [hroom, enteredBy]

include hf

lemma becomes_enter (hat : a.routine.At a.pc (callCode t u)) (hw : a.temps[u]? = some w)
    (h : Ready m) (hroom : 40 ≤ m.sp) :
    Thread.Becomes image ⟨a, callers⟩ m
      ⟨{ routine, destination := .temp t }, a.advance.advance :: callers⟩ (enteredBy m w) := by
  refine (becomes_save callers image hat h (by omega)).trans ?_
  refine Activation.becomes_call image callers hat.2.1 hf (evalAll_arguments hw _) ?_
  rw [enter_eq h, if_neg (by omega)]

lemma failsSilently_enter (hat : a.routine.At a.pc (callCode t u)) (hw : a.temps[u]? = some w)
    (h : Ready m) (hroom : m.sp < 40) : Thread.FailsSilently image ⟨a, callers⟩ m := by
  have hge := h.sp_ge
  by_cases hsave : 16 ≤ m.sp
  · -- the frame pointer can be saved, but the frame does not fit
    have henter := enter_eq h w (.temp t)
    rw [if_pos hroom] at henter
    refine (becomes_save callers image hat h hsave).failsSilently (by simp only [Machine.saved]) ?_
    exact Activation.failsSilently_call image callers hat.2.1 hf (evalAll_arguments hw _) henter
      (by simp only [enteredBy, Machine.entered])
  · have hh : ¬m.memory.holds (m.sp - 16) 8 = true := by
      rw [Memory.holds_iff]
      omega
    have hbound := wordBound_eq
    have hstep : a.step image m = .error (.addressOutOfBounds (m.sp - 16)) m := by
      rw [Activation.step_saveFp hat.1 (by omega) (by omega), if_neg hh]
    exact Thread.failsSilently_of_advance (Exec.bind_error.mpr (.inl hstep)) rfl

end Call

structure Running (r : Routine) (a : Activation) (pc : Nat) (d : Destination) : Prop where
  routine_eq : a.routine = r
  pc_eq : a.pc = pc
  destination : a.destination = d

namespace Running

variable {r : Routine} {a : Activation} {pc : Nat} {d : Destination}

lemma fetch (h : Running r a pc d) {s : Option Stm} (hs : r.code[pc]? = s) :
    a.routine.code[a.pc]? = s := by
  rw [h.routine_eq, h.pc_eq, hs]

lemma code_at (h : Running r a pc d) {code : List Stm} (hat : r.At pc code) :
    a.routine.At a.pc code := by
  rw [h.routine_eq, h.pc_eq]
  exact hat

lemma target (h : Running r a pc d) {l : Label} {pc' : Nat} (hl : r.targets[l]? = some pc') :
    a.routine.targets[l]? = some pc' := by
  rw [h.routine_eq, hl]

lemma advance (h : Running r a pc d) : Running r a.advance (pc + 1) d where
  routine_eq := h.routine_eq
  pc_eq := congrArg (· + 1) h.pc_eq
  destination := h.destination

lemma setTemp (h : Running r a pc d) (u : Temp) (w : Word) : Running r (a.setTemp u w) pc d :=
  ⟨h.routine_eq, h.pc_eq, h.destination⟩

lemma goto (h : Running r a pc d) (pc' : Nat) : Running r { a with pc := pc' } pc' d :=
  ⟨h.routine_eq, rfl, h.destination⟩

end Running

section Body

variable {image : Image} (hg : image.Genuine) {a b : Activation} {callers : List Activation} {t : Temp}
  {top fp : Int} {m : Machine} {w v : Word}

lemma leave_eq {r : Routine} (hs : m.memory.load (m.fp - r.frame.oldFp) = .ok w)
    (hv : m.memory.load m.fp = .ok v) : r.leave m = .ok v (m.returned w.toInt) := by
  unfold Routine.leave
  exact Exec.bind_ok.mpr ⟨(), _, rfl, Exec.bind_ok.mpr ⟨w, _, Machine.read_ok hs,
    Exec.bind_ok.mpr ⟨(), _, rfl, Machine.read_ok hv⟩⟩⟩

include hg

lemma becomes_finish (ha : Running routine a 11 (.temp t)) (h : Entered top fp m)
    (hv : m.memory.load (top - 8) = .ok v) :
    ∃ m', Thread.Becomes image ⟨a, b :: callers⟩ m ⟨b.setTemp t v, callers⟩ m' ∧
      m'.fp = fp ∧ m'.sp = top ∧ m.Above (top + 8) m' := by
  obtain ⟨hfp, -, hsaved, -, hsmall, h0, hlt, hge, hle⟩ := id h
  have hlabel := Thread.becomes_of_exec hg (b :: callers)
    (ha.fetch (s := some (.label (.anonymous 2))) rfl) (Activation.exec_label (m := m))
  have hvalue : a.advance.eval m (cell (-8)) = .ok v := eval_cell (by rw [hfp]; exact hv) hsmall
  have hstore := becomes_move_cell image (b :: callers)
    (ha.advance.fetch (s := some (.move (cell 0) (cell (-8)))) rfl) hvalue (by omega) (by omega) hsmall
  rw [Int.add_zero, hfp] at hstore
  have h' := h.written (a := top) (by omega) v
  have hload : (m.written top v).memory.load top = .ok v :=
    Machine.load_written (Memory.holds_iff.mpr ⟨by omega, by omega⟩)
  have hold : routine.frame.oldFp = 16 := rfl
  have hleave : routine.leave (m.written top v) =
      .ok v ((m.written top v).returned (Int64.ofInt fp).toInt) :=
    leave_eq (by rw [h'.fp_eq, hold]; exact h'.saved) (by rw [h'.fp_eq]; exact hload)
  rw [← ha.advance.advance.routine_eq, Word.toInt_ofInt h0 hlt] at hleave
  have hreturn := Activation.becomes_return image callers (b := b)
    (ha.advance.advance.fetch (s := none) rfl) hleave ha.advance.advance.destination
  refine ⟨_, (hlabel.trans hstore).trans hreturn, Machine.fp_returned _ _,
    (Machine.sp_returned _ _).trans h'.fp_eq, ?_⟩
  exact (Machine.Above.written m v (by omega) (by omega)).returned fp

omit hg in
lemma eval_parameter (h : Entered top fp m) (hw : m.memory.load (top + 8) = .ok w) :
    a.eval m (cell 8) = .ok w :=
  eval_cell (by rw [h.fp_eq]; exact hw) h.small

omit hg in
lemma eval_condition (h : Entered top fp m) (hw : m.memory.load (top + 8) = .ok w) :
    a.eval m (.binop .le (cell 8) (.const 1)) = .ok (.ofBool (w.toInt ≤ 1)) := by
  refine Activation.eval_binop (eval_parameter h hw) rfl (congrArg (fun c => some (Word.ofBool c)) ?_)
  exact decide_eq_decide.mpr Int64.le_iff_toInt_le

lemma becomes_small (ha : Running routine a 0 (.temp t)) (h : Entered top fp m)
    (hw : m.memory.load (top + 8) = .ok w) (hle : w.toInt ≤ 1) :
    ∃ m', Thread.Becomes image ⟨a, b :: callers⟩ m ⟨b.setTemp t 1, callers⟩ m' ∧
      m'.fp = fp ∧ m'.sp = top ∧ m.Above (top + 16) m' := by
  have hfp := h.fp_eq
  have hge := h.top_ge
  have htop := h.top_le
  have hcond : a.eval m (.binop .le (cell 8) (.const 1)) = .ok 1 := by
    rw [eval_condition h hw, decide_eq_true hle]
    rfl
  have hbranch := Thread.becomes_of_exec hg (b :: callers) (ha.fetch rfl)
    (Activation.exec_cjump_one hcond (ha.target target_one))
  have ha₁ := ha.goto 1
  generalize { a with pc := 1 } = a₁ at hbranch ha₁
  have hlabel := Thread.becomes_of_exec hg (b :: callers) (ha₁.fetch rfl)
    (Activation.exec_label (m := m))
  have hstore := becomes_move_cell image (b :: callers) (ha₁.advance.fetch rfl) rfl
    (m := m) (by omega) (by omega) h.small
  rw [hfp, ← Int.sub_eq_add_neg] at hstore
  have ha₃ := ha₁.advance.advance
  have hjump := Thread.becomes_of_exec hg (b :: callers) (ha₃.fetch rfl)
    (Activation.exec_jump (m := m.written (top - 8) 1) (ha₃.target target_eleven))
  obtain ⟨m', hfinish, hfp', hsp', habove⟩ := becomes_finish hg (ha₃.goto 11)
    (h.written (Int.le_refl (top - 8)) 1)
    (Machine.load_written (Memory.holds_iff.mpr ⟨by omega, by omega⟩))
  refine ⟨m', hbranch.trans (hlabel.trans (hstore.trans (hjump.trans hfinish))), hfp', hsp', ?_⟩
  exact (Machine.Above.written m 1 (by omega) (by omega)).trans (habove.mono (by omega))

lemma becomes_large (callers : List Activation) (ha : Running routine a 0 (.temp t))
    (h : Entered top fp m) (hw : m.memory.load (top + 8) = .ok w) (hlt : 1 < w.toInt) :
    ∃ a', Thread.Becomes image ⟨a, callers⟩ m ⟨a', callers⟩ m ∧ Running routine a' 8 (.temp t) ∧
      a'.temps[temp 3]? = some (.ofInt (top - 8)) ∧ a'.temps[temp 2]? = some w ∧
      a'.temps[temp 0]? = some (w - 1) := by
  have hcond : a.eval m (.binop .le (cell 8) (.const 1)) = .ok 0 := by
    rw [eval_condition h hw, decide_eq_false (Int.not_le.mpr hlt)]
    rfl
  have hbranch := Thread.becomes_of_exec hg callers (ha.fetch rfl)
    (Activation.exec_cjump_zero hcond (ha.target target_four))
  have ha₁ := ha.goto 4
  generalize { a with pc := 4 } = a₁ at hbranch ha₁
  have hlabel := Thread.becomes_of_exec hg callers (ha₁.fetch rfl) (Activation.exec_label (m := m))
  have ha₂ := ha₁.advance
  have hfirst := Activation.becomes_move_temp image callers (ha₂.fetch rfl) (eval_address _ m (-8))
  rw [h.fp_eq, ← Int.sub_eq_add_neg] at hfirst
  have ha₃ := (ha₂.setTemp (temp 3) (.ofInt (top - 8))).advance
  have hsecond := Activation.becomes_move_temp image callers (ha₃.fetch rfl) (eval_parameter h hw)
  have ha₄ := (ha₃.setTemp (temp 2) w).advance
  have hthird := Activation.becomes_move_temp image callers (ha₄.fetch rfl)
    (Activation.eval_binop (eval_parameter h hw) rfl rfl)
  refine ⟨_, hbranch.trans (hlabel.trans (hfirst.trans (hsecond.trans hthird))),
    (ha₄.setTemp (temp 0) (w - 1)).advance, ?_, ?_, ?_⟩
  · simp only [Activation.temps_advance, Activation.getElem?_setTemp, if_true]
    rw [if_neg (by decide), if_neg (by decide)]
  · simp only [Activation.temps_advance, Activation.getElem?_setTemp, if_true]
    rw [if_neg (by decide)]
  · simp only [Activation.temps_advance, Activation.getElem?_setTemp, if_true]

lemma becomes_multiply (ha : Running routine a 10 (.temp t)) (h : Entered top fp m)
    (haddress : a.temps[temp 3]? = some (.ofInt (top - 8))) (hw : a.temps[temp 2]? = some w)
    (hv : a.temps[temp 1]? = some v) :
    ∃ m', Thread.Becomes image ⟨a, b :: callers⟩ m ⟨b.setTemp t (w * v), callers⟩ m' ∧
      m'.fp = fp ∧ m'.sp = top ∧ m.Above (top + 16) m' := by
  have hge := h.top_ge
  have htop := h.top_le
  have hsmall := h.small
  have hi := Word.toInt_ofInt (a := top - 8) (by omega) (by omega)
  have hh : m.memory.holds (top - 8) 8 = true := Memory.holds_iff.mpr ⟨by omega, by omega⟩
  have hproduct : a.eval m (.binop .mul (.temp (temp 2)) (.temp (temp 1))) = .ok (w * v) :=
    Activation.eval_binop (a.eval_of_temp hw) (a.eval_of_temp hv) rfl
  have hstore := Activation.becomes_move_mem image (b :: callers) (ha.fetch rfl)
    (a.eval_of_temp haddress) hproduct (by rw [hi]; exact hh)
  rw [hi] at hstore
  obtain ⟨m', hfinish, hfp', hsp', habove⟩ := becomes_finish hg ha.advance
    (h.written (Int.le_refl (top - 8)) (w * v)) (Machine.load_written hh)
  refine ⟨m', hstore.trans hfinish, hfp', hsp', ?_⟩
  exact (Machine.Above.written m _ (by omega) (by omega)).trans (habove.mono (by omega))

end Body

/-- A call needs 32 bytes for each frame. With as much room it gives the factorial back, and otherwise
it fails. -/
structure Served (image : Image) (a : Activation) (callers : List Activation) (m : Machine) (t : Temp)
    (w : Word) : Prop where
  returns : 8 + 32 * max w.toInt 1 ≤ m.sp →
    ∃ m', Thread.Becomes image ⟨a, callers⟩ m ⟨a.advance.advance.setTemp t (value w), callers⟩ m' ∧
      m'.fp = m.fp ∧ m'.sp = m.sp ∧ m.Above (m.sp + 16) m'
  fails : m.sp < 8 + 32 * max w.toInt 1 → Thread.FailsSilently image ⟨a, callers⟩ m

section Served

variable {image : Image} (hg : image.Genuine)
variable (hf : image.routines[Label.named "fact"]? = some routine)
variable {a b : Activation} {callers : List Activation} {m : Machine} {t u : Temp} {w : Word}

include hg

lemma body_of_served (b : Activation) (callers : List Activation) {top fp : Int}
    (ha : Running routine a 0 (.temp t)) (h : Entered top fp m)
    (hw : m.memory.load (top + 8) = .ok w) (hlt : 1 < w.toInt)
    (inner : ∀ a callers m t u, a.routine.At a.pc (callCode t u) → a.temps[u]? = some (w - 1) →
      Ready m → Served image a callers m t (w - 1)) :
    (8 + 32 * w.toInt ≤ top →
      ∃ m', Thread.Becomes image ⟨a, b :: callers⟩ m ⟨b.setTemp t (value w), callers⟩ m' ∧
        m'.fp = fp ∧ m'.sp = top ∧ m.Above (top + 16) m') ∧
    (top < 8 + 32 * w.toInt → Thread.FailsSilently image ⟨a, b :: callers⟩ m) := by
  have hpred := toInt_pred hlt
  have hsp := h.sp_eq
  obtain ⟨a', hbefore, ha', haddress, hkept, hargument⟩ :=
    becomes_large hg (b :: callers) ha h hw hlt
  have hat : a'.routine.At a'.pc (callCode (temp 1) (temp 0)) := ha'.code_at ⟨rfl, rfl, trivial⟩
  obtain ⟨hreturns, hfails⟩ := inner a' (b :: callers) m _ _ hat hargument h.ready
  refine ⟨fun hroom => ?_, fun hroom => hbefore.failsSilently rfl (hfails (by omega))⟩
  obtain ⟨m₁, hcall, hfp₁, hsp₁, habove₁⟩ := hreturns (by omega)
  rw [hsp] at habove₁
  have h₁ := h.above hfp₁ hsp₁ (habove₁.mono (by omega))
  have ha₁ := ha'.advance.advance.setTemp (temp 1) (value (w - 1))
  obtain ⟨m₂, hmultiply, hfp₂, hsp₂, habove₂⟩ := becomes_multiply hg ha₁ h₁
    (by rw [Activation.getElem?_setTemp, if_neg (by decide)]; exact haddress)
    (by rw [Activation.getElem?_setTemp, if_neg (by decide)]; exact hkept)
    (by rw [Activation.getElem?_setTemp, if_pos rfl])
  rw [← value_of_lt hlt] at hmultiply
  exact ⟨m₂, hbefore.trans (hcall.trans hmultiply), hfp₂, hsp₂,
    (habove₁.mono (by omega)).trans habove₂⟩

include hf

lemma served_of_inner (hat : a.routine.At a.pc (callCode t u)) (hw : a.temps[u]? = some w)
    (h : Ready m) (inner : 1 < w.toInt → ∀ a callers m t u, a.routine.At a.pc (callCode t u) →
      a.temps[u]? = some (w - 1) → Ready m → Served image a callers m t (w - 1)) :
    Served image a callers m t w := by
  by_cases hroom : m.sp < 40
  · exact ⟨fun hle => by omega, fun _ => failsSilently_enter hf callers hat hw h hroom⟩
  have hroom : 40 ≤ m.sp := Int.not_lt.mp hroom
  have henter := becomes_enter hf callers hat hw h hroom
  obtain ⟨hentered, hload, habove⟩ := entered_enteredBy h hroom w
  have hrunning : Running routine { routine, destination := .temp t } 0 (.temp t) := ⟨rfl, rfl, rfl⟩
  by_cases hle : w.toInt ≤ 1
  · refine ⟨fun _ => ?_, fun hlt => by omega⟩
    obtain ⟨m', hbody, hfp, hsp, habove'⟩ := becomes_small hg hrunning hentered hload hle
    rw [← value_of_le hle] at hbody
    exact ⟨m', henter.trans hbody, hfp, hsp, habove.trans habove'⟩
  · have hlt : 1 < w.toInt := Int.not_le.mp hle
    obtain ⟨hreturns, hfails⟩ := body_of_served hg a.advance.advance callers hrunning hentered hload
      hlt (inner hlt)
    refine ⟨fun hroom => ?_, fun hroom => henter.failsSilently habove.console (hfails (by omega))⟩
    obtain ⟨m', hbody, hfp, hsp, habove'⟩ := hreturns (by omega)
    exact ⟨m', henter.trans hbody, hfp, hsp, habove.trans habove'⟩

lemma served (hat : a.routine.At a.pc (callCode t u)) (hw : a.temps[u]? = some w) (h : Ready m) :
    Served image a callers m t w := by
  -- the inner call has a smaller argument, so a bound of the argument carries the induction
  obtain ⟨k, hk⟩ : ∃ k : Nat, w.toInt ≤ k + 1 := ⟨w.toInt.toNat, by omega⟩
  induction k generalizing a callers m t u w with
  | zero => exact served_of_inner hg hf hat hw h fun hlt => by omega
  | succ k ih =>
    refine served_of_inner hg hf hat hw h fun hlt _ _ _ _ _ hat' hw' h' => ih hat' hw' h' ?_
    rw [toInt_pred hlt]
    omega

end Served

structure InMain (size : Int) (console : Option Console) (m : Machine) : Prop where
  fp_eq : m.fp = size - 8
  sp_eq : m.sp = size - 32
  size_eq : m.memory.size = size
  staticEnd : m.memory.staticEnd = 8
  console_eq : m.console = console

namespace InMain

variable {size : Int} {console : Option Console} {m m' : Machine}

lemma ready (h : InMain size console m) (hge : 40 ≤ size) (hlt : size < wordBound) :
    Ready m := by
  obtain ⟨hfp, hsp, hsize, hend, -⟩ := h
  exact ⟨hend, by omega, by omega, by omega, by omega, by omega⟩

lemma above {low : Int} (h : InMain size console m) (hfp : m'.fp = m.fp) (hsp : m'.sp = m.sp)
    (ha : m.Above low m') : InMain size console m' :=
  ⟨hfp.trans h.fp_eq, hsp.trans h.sp_eq, ha.size.trans h.size_eq, ha.staticEnd.trans h.staticEnd,
    ha.console.trans h.console_eq⟩

end InMain

section Main

variable {input : Word} {setup : Setup}

def started (input : Word) (setup : Setup) : Machine :=
  ((machine setup).saved 8).entered (mainRoutine input) [0]

lemma size_machine (setup : Setup) : (machine setup).memory.size = setup.memorySize := by
  simp [machine, Memory.new, Memory.size]

lemma inMain_started (input : Word) (setup : Setup) :
    InMain setup.memorySize setup.console (started input setup) where
  fp_eq := by
    simp only [started, Machine.entered, Machine.sp_saved]
    rfl
  sp_eq := by
    have hsize : (mainRoutine input).frame.size = 24 := rfl
    have hsp : (machine setup).sp = setup.memorySize - 8 := rfl
    simp only [started, Machine.entered, Machine.sp_saved, hsize, hsp]
    omega
  size_eq := by
    simp only [started, Machine.entered, Memory.size_write, Machine.size_saved, size_machine]
  staticEnd := by
    simp only [started, Machine.entered, Memory.staticEnd_write, Machine.staticEnd_saved]
    rfl
  console_eq := by
    simp only [started, Machine.entered, Machine.saved]
    rfl

lemma start_bind (input : Word) (setup : Setup) :
    (image input).start (machine setup) = (do
      Machine.store ((setup.memorySize : Int) - 16) (.ofInt ((setup.memorySize : Int) - 8))
      return { current := ← (mainRoutine input).enter [0] .discard } : Exec Thread) (machine setup) := by
  have hparams : ¬wordSize < mainFrame.params := by decide
  have haddress : (machine setup).sp - (mainRoutine input).frame.oldFp = setup.memorySize - 16 := by
    have hold : (mainRoutine input).frame.oldFp = 8 := rfl
    have hsp : (machine setup).sp = setup.memorySize - 8 := rfl
    omega
  unfold Image.start
  rw [show (image input).routines[(image input).entry]? = some (mainRoutine input) from
    routine_main input]
  dsimp only
  rw [show (mainRoutine input).frame = mainFrame from rfl, if_neg hparams, ← haddress]
  rfl

lemma start_eq (input : Word) (hlow : 16 ≤ setup.memorySize) :
    (image input).start (machine setup) =
      if setup.memorySize < 40 then .error .stackOverflow (started input setup)
      else .ok ⟨{ routine := mainRoutine input, destination := .discard }, []⟩ (started input setup) := by
  have hsp : (machine setup).sp = setup.memorySize - 8 := rfl
  have hsize := size_machine setup
  have haddress : (machine setup).sp - 8 = setup.memorySize - 16 := by omega
  have hstore : Machine.store ((setup.memorySize : Int) - 16) (.ofInt ((setup.memorySize : Int) - 8))
      (machine setup) = .ok () ((machine setup).saved 8) := by
    rw [← haddress]
    exact Machine.store_of_holds (Memory.holds_iff.mpr ⟨by omega, by omega⟩)
  have hargs : ((machine setup).saved 8).sp + 8 * ([0] : List Word).length ≤
      ((machine setup).saved 8).memory.size := by
    rw [Machine.sp_saved, Machine.size_saved, List.length_singleton]
    omega
  have henter := Routine.enter_eq (r := mainRoutine input) (d := .discard)
    (by rw [Machine.sp_saved]; omega) hargs
  have hroom : ((machine setup).saved 8).sp - (mainRoutine input).frame.size <
      ((machine setup).saved 8).memory.staticEnd ↔ setup.memorySize < 40 := by
    have hframe : (mainRoutine input).frame.size = 24 := rfl
    have hend : (machine setup).memory.staticEnd = 8 := rfl
    rw [Machine.sp_saved, Machine.staticEnd_saved, hframe, hend]
    omega
  simp only [hroom] at henter
  rw [start_bind]
  by_cases hfits : setup.memorySize < 40
  · rw [if_pos hfits] at henter ⊢
    exact Exec.bind_error.mpr (.inr ⟨(), _, hstore, Exec.bind_error.mpr (.inl henter)⟩)
  · rw [if_neg hfits] at henter ⊢
    exact Exec.bind_ok.mpr ⟨(), _, hstore, Exec.bind_ok.mpr ⟨_, _, henter, rfl⟩⟩

lemma start_error (hlow : setup.memorySize < 16) :
    (image input).start (machine setup) =
      .error (.addressOutOfBounds ((setup.memorySize : Int) - 16)) (machine setup) := by
  have hh : ¬(machine setup).memory.holds ((setup.memorySize : Int) - 16) 8 = true := by
    rw [Memory.holds_iff]
    omega
  rw [start_bind]
  exact Exec.bind_error.mpr (.inl (by rw [Machine.store_eq, if_neg hh]))

def line (input : Word) : String := toString (value input).toInt ++ "\n"

lemma call_print {m : Machine} (h : Console.Accepts m.console [line input]) :
    intrinsicCalls.run (.named "print_int") [0, value input] m =
      .ok 0 { m with console := m.console.map (·.put (line input)) } := by
  have hcall : Intrinsic.call Intrinsic.printInt.label [0, value input] =
      (do Machine.print (toString (value input).toInt); return 0) := Intrinsic.call_print rfl
  change Intrinsic.call Intrinsic.printInt.label _ m = _
  rw [hcall]
  exact Exec.bind_ok.mpr ⟨(), _, Machine.print_of_accepts h, rfl⟩

variable {a : Activation} {size : Int} {console : Option Console} {m : Machine}

lemma served_main {pc : Nat} {t u : Temp} (ha : Running (mainRoutine input) a pc .discard)
    (hs : (mainRoutine input).code[pc]? = some (.move (.temp u) (.const input)))
    (hat : (mainRoutine input).At (pc + 1) (callCode t u)) (h : Ready m) :
    ∃ a', Thread.Becomes (image input) ⟨a, []⟩ m ⟨a', []⟩ m ∧
      Running (mainRoutine input) a' (pc + 1) .discard ∧ Served (image input) a' [] m t input := by
  have hu : (a.setTemp u input).advance.temps[u]? = some input := by
    rw [Activation.temps_advance, Activation.getElem?_setTemp, if_pos rfl]
  have ha' := (ha.setTemp u input).advance
  exact ⟨_, Activation.becomes_move_temp _ _ (ha.fetch hs) rfl, ha',
    served (genuine_image input) (routine_fact input) (ha'.code_at hat) hu h⟩

lemma failsSilently_main (ha : Running (mainRoutine input) a 0 .discard) (h : InMain size console m)
    (hge : 40 ≤ size) (hlt : size < wordBound) (hfew : size < 40 + 32 * max input.toInt 1) :
    Thread.FailsSilently (image input) ⟨a, []⟩ m := by
  have hsp := h.sp_eq
  obtain ⟨a', hfirst, -, hserved⟩ := served_main ha rfl ⟨rfl, rfl, trivial⟩ (h.ready hge hlt)
    (t := temp 7) (u := temp 4)
  exact hfirst.failsSilently rfl (hserved.fails (by omega))

lemma becomes_printed (ha : Running (mainRoutine input) a 0 .discard) (h : InMain size console m)
    (hlt : size < wordBound) (hroom : 40 + 32 * max input.toInt 1 ≤ size)
    (haccepts : Console.Accepts console [line input]) :
    ∃ a' m', Thread.Becomes (image input) ⟨a, []⟩ m ⟨a', []⟩ m' ∧
      Running (mainRoutine input) a' 5 .discard ∧
      InMain size (console.map (·.put (line input))) m' := by
  have hsp := h.sp_eq
  obtain ⟨a₁, hargument, ha₁, hserved⟩ := served_main ha rfl ⟨rfl, rfl, trivial⟩
    (h.ready (by omega) hlt) (t := temp 7) (u := temp 4)
  obtain ⟨m₁, hcall, hfp₁, hsp₁, habove₁⟩ := hserved.returns (by omega)
  have h₁ := h.above hfp₁ hsp₁ habove₁
  have ha₃ := ha₁.advance.advance.setTemp (temp 7) (value input)
  have hresult : (a₁.advance.advance.setTemp (temp 7) (value input)).temps[temp 7]? =
      some (value input) := by
    rw [Activation.getElem?_setTemp, if_pos rfl]
  have hmove := Activation.becomes_move_temp (m := m₁) (image input) [] (ha₃.fetch rfl)
    (Activation.eval_of_temp hresult)
  have ha₄ := (ha₃.setTemp (temp 5) (value input)).advance
  have hargs : ((a₁.advance.advance.setTemp (temp 7) (value input)).setTemp (temp 5)
      (value input)).advance.evalAll m₁ [.const 0, .temp (temp 5)] = .ok [0, value input] :=
    evalAll_arguments (by rw [Activation.getElem?_setTemp, if_pos rfl]) m₁
  have hprint := Thread.becomes_of_exec (genuine_image input) [] (ha₄.fetch rfl)
    (Activation.exec_move_call hargs (call_print (by rw [h₁.console_eq]; exact haccepts)) (temp 8))
  refine ⟨_, _, hargument.trans (hcall.trans (hmove.trans hprint)),
    (ha₄.setTemp (temp 8) 0).advance, ?_⟩
  exact ⟨h₁.fp_eq, h₁.sp_eq, h₁.size_eq, h₁.staticEnd, by rw [h₁.console_eq]⟩

lemma runFor_main (ha : Running (mainRoutine input) a 5 .discard) (h : InMain size console m)
    (hlt : size < wordBound) (hroom : 40 + 32 * max input.toInt 1 ≤ size) :
    ∃ fuel m', Thread.runFor (image input) fuel ⟨a, []⟩ m = (.value (value input), m') ∧
      m'.console = console := by
  have hsp := h.sp_eq
  obtain ⟨a₁, hargument, ha₁, hserved⟩ := served_main ha rfl ⟨rfl, rfl, trivial⟩
    (h.ready (by omega) hlt) (t := temp 9) (u := temp 6)
  obtain ⟨m₁, hcall, hfp₁, hsp₁, habove₁⟩ := hserved.returns (by omega)
  obtain ⟨hfp, -, hsize, -, hconsole⟩ := h.above hfp₁ hsp₁ habove₁
  have ha₃ := ha₁.advance.advance.setTemp (temp 9) (value input)
  have hresult : (a₁.advance.advance.setTemp (temp 9) (value input)).temps[temp 9]? =
      some (value input) := by
    rw [Activation.getElem?_setTemp, if_pos rfl]
  have hstore := becomes_move_cell (image input) [] (ha₃.fetch rfl) (Activation.eval_of_temp hresult)
    (m := m₁) (by omega) (by omega) (by omega)
  rw [Int.add_zero] at hstore
  have hold : (mainRoutine input).frame.oldFp = 8 := rfl
  obtain ⟨w, hw⟩ : ∃ w, (m₁.written m₁.fp (value input)).memory.load (m₁.fp - 8) = .ok w :=
    ⟨_, Memory.load_of_holds (Memory.holds_iff.mpr (by rw [Machine.size_written]; omega))⟩
  have hleave : (mainRoutine input).leave (m₁.written m₁.fp (value input)) =
      .ok (value input) ((m₁.written m₁.fp (value input)).returned w.toInt) :=
    leave_eq (by rw [Machine.fp_written, hold]; exact hw)
      (by
        rw [Machine.fp_written]
        exact Machine.load_written (Memory.holds_iff.mpr ⟨by omega, by omega⟩))
  obtain ⟨k, hk⟩ := hargument.trans (hcall.trans hstore)
  refine ⟨k + 1, _, (hk 1).trans (Thread.runFor_of_leave (ha₃.advance.fetch rfl)
    (by rw [ha₃.advance.routine_eq]; exact hleave) 0), ?_⟩
  rw [Machine.console_returned, Machine.console_written, hconsole]

lemma running_main (input : Word) :
    Running (mainRoutine input) { routine := mainRoutine input, destination := .discard } 0 .discard :=
  ⟨rfl, rfl, rfl⟩

lemma run_value (hlt : setup.memorySize < wordBound)
    (hroom : 40 + 32 * max input.toInt 1 ≤ setup.memorySize)
    (haccepts : Console.Accepts setup.console [line input]) :
    ∃ fuel m', (image input).run fuel (machine setup) = (.value (value input), m') ∧
      m'.console = setup.console.map (·.put (line input)) := by
  have hlow : 16 ≤ setup.memorySize := by omega
  have hstart := start_eq input hlow
  rw [if_neg (by omega)] at hstart
  obtain ⟨a, m, ⟨k, hk⟩, ha, h⟩ := becomes_printed (running_main input)
    (inMain_started input setup) (by omega) hroom haccepts
  obtain ⟨fuel, m', hrun, hconsole⟩ := runFor_main ha h (by omega) hroom
  refine ⟨k + fuel, m', ?_, hconsole⟩
  rw [Image.run_of_start hstart]
  exact (hk fuel).trans hrun

lemma run_fault (hlt : setup.memorySize < wordBound)
    (hfew : setup.memorySize < 40 + 32 * max input.toInt 1) :
    ∃ fuel e m', (image input).run fuel (machine setup) = (.fault e, m') ∧
      m'.console = setup.console := by
  have hmain := inMain_started input setup
  by_cases hsave : 16 ≤ setup.memorySize
  · have hstart := start_eq input hsave
    by_cases hfits : setup.memorySize < 40
    · rw [if_pos hfits] at hstart
      exact ⟨0, _, _, Image.run_of_start_error hstart 0, hmain.console_eq⟩
    · rw [if_neg hfits] at hstart
      obtain ⟨fuel, e, m', hrun, hconsole⟩ := failsSilently_main (running_main input) hmain
        (by omega) (by omega) hfew
      exact ⟨fuel, e, m', (Image.run_of_start hstart fuel).trans hrun,
        hconsole.trans hmain.console_eq⟩
  · exact ⟨0, _, _, Image.run_of_start_error (start_error (by omega)) 0, rfl⟩

lemma room_of_run (hlt : setup.memorySize < wordBound) {fuel : Nat} {w : Word} {m' : Machine}
    (hrun : (image input).run fuel (machine setup) = (.value w, m')) :
    40 + 32 * max input.toInt 1 ≤ setup.memorySize := by
  by_contra hfew
  obtain ⟨fuel', e, m'', hfault, -⟩ := run_fault hlt (Int.not_le.mp hfew)
  obtain ⟨ho, -⟩ := Image.run_unique hrun (fun _ h => by cases h) hfault (fun _ h => by cases h)
  cases ho

end Main

end Factorial

/-- The sample program that computes factorials needs 40 bytes and 32 for each call at a time. With as
much memory it prints and returns the factorial, cut down to a word. With less it fails and prints
nothing. -/
theorem factorial_runs_iff_memory_suffices (input : Word) (setup : Setup)
    (hsmall : setup.memorySize < wordBound)
    (haccepts : Console.Accepts setup.console
      [toString (Int64.ofInt (input.toInt.toNat.factorial : Nat)).toInt ++ "\n"]) :
    ∃ p code image m, Builder.run (Source.Sample.build (.factorial input)) = .ok p ∧
      p.compile Source.Sample.entry = .ok code ∧ Image.load code setup = .ok (image, m) ∧
      ((∃ fuel w m', image.run fuel m = (.value w, m')) ↔
        40 + 32 * max input.toInt 1 ≤ setup.memorySize) ∧
      (∀ fuel w m', image.run fuel m = (.value w, m') →
        w = Int64.ofInt (input.toInt.toNat.factorial : Nat) ∧
          m'.console = setup.console.map (·.put (toString w.toInt ++ "\n"))) ∧
      (setup.memorySize < 40 + 32 * max input.toInt 1 →
        ∃ fuel e m', image.run fuel m = (.fault e, m') ∧ m'.console = setup.console) := by
  obtain ⟨p, hp, hc⟩ := Factorial.compile_factorialProgram input
  refine ⟨p, _, _, _, hp, hc, Factorial.load_compiled input setup, ?_, ?_, Factorial.run_fault hsmall⟩
  · refine ⟨fun ⟨fuel, w, m', hrun⟩ => Factorial.room_of_run hsmall hrun, fun hroom => ?_⟩
    obtain ⟨fuel, m', hrun, -⟩ := Factorial.run_value hsmall hroom haccepts
    exact ⟨fuel, _, m', hrun⟩
  · intro fuel w m' hrun
    obtain ⟨fuel', m'', hvalue, hconsole⟩ :=
      Factorial.run_value hsmall (Factorial.room_of_run hsmall hrun) haccepts
    obtain ⟨ho, rfl⟩ := Image.run_unique hvalue (fun _ h => by cases h) hrun (fun _ h => by cases h)
    obtain rfl := Outcome.value.inj ho
    exact ⟨rfl, hconsole⟩

theorem factorial_runs_iff_memory_suffices_five :
    (∃ p code image m fuel m', Builder.run (Source.Sample.build (.factorial 5)) = .ok p ∧
      p.compile "main" = .ok code ∧
      Image.load code { memorySize := 200, generator := .ofSeed 0, console := some {} } =
        .ok (image, m) ∧
      image.run fuel m = (.value 120, m') ∧ m'.console = some (Console.put {} "120\n")) ∧
    ∃ p code image m fuel e m', Builder.run (Source.Sample.build (.factorial 5)) = .ok p ∧
      p.compile "main" = .ok code ∧
      Image.load code { memorySize := 199, generator := .ofSeed 0, console := some {} } =
        .ok (image, m) ∧
      image.run fuel m = (.fault e, m') ∧ m'.console = some {} := by
  have hvalue : Int64.ofInt ((Int64.toInt 5).toNat.factorial : Nat) = 120 := by decide
  have htext : toString (Int64.toInt 120) ++ "\n" = "120\n" := by decide
  constructor
  · obtain ⟨p, code, image, m, hp, hc, hload, hiff, hprints, -⟩ := factorial_runs_iff_memory_suffices 5
      { memorySize := 200, generator := .ofSeed 0, console := some {} } (by decide)
      fun c hc => by cases hc; exact ⟨rfl, trivial⟩
    obtain ⟨fuel, w, m', hrun⟩ := hiff.mpr (by decide)
    obtain ⟨rfl, hconsole⟩ := hprints fuel w m' hrun
    rw [hvalue] at hrun hconsole
    rw [htext] at hconsole
    exact ⟨p, code, image, m, fuel, m', hp, hc, hload, hrun, hconsole⟩
  · obtain ⟨p, code, image, m, hp, hc, hload, -, -, hfails⟩ := factorial_runs_iff_memory_suffices 5
      { memorySize := 199, generator := .ofSeed 0, console := some {} } (by decide)
      fun c hc => by cases hc; exact ⟨rfl, trivial⟩
    obtain ⟨fuel, e, m', hrun, hconsole⟩ := hfails (by decide)
    exact ⟨p, code, image, m, fuel, e, m', hp, hc, hload, hrun, hconsole⟩

end BlockLang
