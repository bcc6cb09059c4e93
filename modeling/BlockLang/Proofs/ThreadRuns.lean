import BlockLang.Proofs.ThreadSteps
import BlockLang.Proofs.Words

namespace BlockLang

open Code

namespace Thread

def Becomes (image : Image) (t : Thread) (m : Machine) (t' : Thread) (m' : Machine) : Prop :=
  ∃ k, ∀ fuel, t.runFor image (k + fuel) m = t'.runFor image fuel m'

namespace Becomes

variable {image : Image} {t t' t'' : Thread} {m m' m'' : Machine}

lemma refl : t.Becomes image m t m :=
  ⟨0, fun fuel => by rw [Nat.zero_add]⟩

lemma trans (h : t.Becomes image m t' m') (h' : t'.Becomes image m' t'' m'') :
    t.Becomes image m t'' m'' := by
  obtain ⟨k, hk⟩ := h
  obtain ⟨j, hj⟩ := h'
  exact ⟨k + j, fun fuel => by rw [Nat.add_assoc, hk, hj]⟩

lemma of_advance (h : t.advance image m = .ok (.running t') m') : t.Becomes image m t' m' := by
  refine ⟨1, fun fuel => ?_⟩
  rw [Nat.add_comm]
  exact runFor_of_running h fuel

end Becomes

variable {image : Image} {a b : Activation} {callers : List Activation} {m m' : Machine}

lemma becomes_of_step (h : a.step image m = .ok (.next b) m') :
    Becomes image ⟨a, callers⟩ m ⟨b, callers⟩ m' :=
  .of_advance (Exec.bind_ok.mpr ⟨_, _, h, rfl⟩)

lemma becomes_of_exec (hg : image.Genuine) (callers : List Activation) {s : Stm}
    (hs : a.routine.code[a.pc]? = some s) (h : a.exec intrinsicCalls s m = .ok b m') :
    Becomes image ⟨a, callers⟩ m ⟨b, callers⟩ m' :=
  becomes_of_step (Activation.step_of_exec hg hs h)

def FailsSilently (image : Image) (t : Thread) (m : Machine) : Prop :=
  ∃ fuel e m', t.runFor image fuel m = (.fault e, m') ∧ m'.console = m.console

lemma Becomes.failsSilently {t t' : Thread} (h : t.Becomes image m t' m')
    (hc : m'.console = m.console) (hf : t'.FailsSilently image m') : t.FailsSilently image m := by
  obtain ⟨k, hk⟩ := h
  obtain ⟨fuel, e, m'', hr, hc'⟩ := hf
  exact ⟨k + fuel, e, m'', (hk fuel).trans hr, hc'.trans hc⟩

lemma failsSilently_of_advance {t : Thread} {e : Fault} (h : t.advance image m = .error e m')
    (hc : m'.console = m.console) : t.FailsSilently image m := by
  exact ⟨1, e, m', runFor_of_error h 0, hc⟩

end Thread

namespace Activation

variable (image : Image) {a : Activation} (callers : List Activation) {m : Machine} {x v : Exp}
  {address w : Word}

lemma isCall_of_eval (h : a.eval m v = .ok w) : v.isCall = false := by
  cases v with
  | call f args => cases h
  | _ => rfl

lemma eval_of_temp {t : Temp} (h : a.temps[t]? = some w) : a.eval m (.temp t) = .ok w := by
  simp only [eval, h]

lemma eval_binop {op : Op} {i j : Word} (hx : a.eval m x = .ok i) (hv : a.eval m v = .ok j)
    (ho : op.apply i j = some w) : a.eval m (.binop op x v) = .ok w := by
  simp only [eval, hx, hv, ho, bind, Except.bind]

lemma temps_advance (a : Activation) : a.advance.temps = a.temps := rfl

lemma becomes_move_temp {t : Temp} (hs : a.routine.code[a.pc]? = some (.move (.temp t) v))
    (hv : a.eval m v = .ok w) :
    Thread.Becomes image ⟨a, callers⟩ m ⟨(a.setTemp t w).advance, callers⟩ m := by
  refine Thread.becomes_of_step ?_
  rw [step_move hs (isCall_of_eval hv)]
  exact Exec.bind_ok.mpr ⟨.temp t, m, Machine.read_ok rfl,
    Exec.bind_ok.mpr ⟨w, m, Machine.read_ok hv, rfl⟩⟩

lemma becomes_move_mem (hs : a.routine.code[a.pc]? = some (.move (.mem x) v))
    (hx : a.eval m x = .ok address) (hv : a.eval m v = .ok w)
    (hh : m.memory.holds address.toInt 8 = true) :
    Thread.Becomes image ⟨a, callers⟩ m ⟨a.advance, callers⟩
      { m with memory := m.memory.write address.toInt w.toBytes } := by
  refine Thread.becomes_of_step ?_
  rw [step_move hs (isCall_of_eval hv)]
  have hp : a.place m (.mem x) = .ok (.memory address.toInt) := by
    rw [place, hx]
    rfl
  exact Exec.bind_ok.mpr ⟨_, m, Machine.read_ok hp, Exec.bind_ok.mpr ⟨w, m, Machine.read_ok hv,
    Exec.bind_ok.mpr ⟨a.advance, _, Exec.bind_ok.mpr ⟨(), _, Machine.store_of_holds hh, rfl⟩, rfl⟩⟩⟩

variable {t : Temp} {f : Label} {args : List Exp} {ws : List Word} {r : Routine}

lemma step_call (hs : a.routine.code[a.pc]? = some (.move (.temp t) (.call f args)))
    (hr : image.routines[f]? = some r) (hw : a.evalAll m args = .ok ws) :
    a.step image m = .ok (.call r ws (.temp t) a.advance) m := by
  rw [step_move_call hs]
  refine Exec.bind_ok.mpr ⟨.temp t, m, Machine.read_ok rfl,
    Exec.bind_ok.mpr ⟨ws, m, Machine.read_ok hw, ?_⟩⟩
  rw [hr]
  rfl

lemma becomes_call {b : Activation} {m' : Machine}
    (hs : a.routine.code[a.pc]? = some (.move (.temp t) (.call f args)))
    (hr : image.routines[f]? = some r) (hw : a.evalAll m args = .ok ws)
    (he : r.enter ws (.temp t) m = .ok b m') :
    Thread.Becomes image ⟨a, callers⟩ m ⟨b, a.advance :: callers⟩ m' :=
  .of_advance (Exec.bind_ok.mpr ⟨_, _, step_call image hs hr hw, Exec.bind_ok.mpr ⟨b, m', he, rfl⟩⟩)

lemma failsSilently_call {e : Fault} {m' : Machine}
    (hs : a.routine.code[a.pc]? = some (.move (.temp t) (.call f args)))
    (hr : image.routines[f]? = some r) (hw : a.evalAll m args = .ok ws)
    (he : r.enter ws (.temp t) m = .error e m') (hc : m'.console = m.console) :
    Thread.FailsSilently image ⟨a, callers⟩ m :=
  Thread.failsSilently_of_advance (Exec.bind_error.mpr
    (.inr ⟨_, _, step_call image hs hr hw, Exec.bind_error.mpr (.inl he)⟩)) hc

lemma becomes_return {b : Activation} {m' : Machine} (hs : a.routine.code[a.pc]? = none)
    (hl : a.routine.leave m = .ok w m') (hd : a.destination = .temp t) :
    Thread.Becomes image ⟨a, b :: callers⟩ m ⟨b.setTemp t w, callers⟩ m' := by
  refine .of_advance (Exec.bind_ok.mpr ⟨.ret, m, ?_, Exec.bind_ok.mpr ⟨w, m', hl, ?_⟩⟩)
  · rw [step_end hs]
    rfl
  · simp only [hd]
    rfl

end Activation

end BlockLang
