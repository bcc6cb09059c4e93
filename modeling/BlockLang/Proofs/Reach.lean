import BlockLang.Machine.Run
import BlockLang.Proofs.TreeEvaluation

namespace BlockLang

open Code

namespace Machine

lemma read_ok {α : Type} {f : Machine → Except Fault α} {m : Machine} {a : α} (h : f m = .ok a) :
    read f m = .ok a m := by
  simp [read, h]

lemma read_error {α : Type} {f : Machine → Except Fault α} {m : Machine} {e : Fault}
    (h : f m = .error e) : read f m = .error e m := by
  simp [read, h]

lemma store_ok_iff {address : Int} {w : Word} {m m' : Machine} :
    store address w m = .ok () m' ↔ m.memory.holds address 8 = true ∧
      m' = { m with memory := m.memory.write address w.toBytes } := by
  rw [store_eq]
  split
  · rename_i h
    simp only [h, true_and, EStateM.Result.ok.injEq, eq_comm]
  · rename_i h
    simp [h]

lemma nameValue_store {address : Int} {w : Word} {m m' : Machine}
    (h : store address w m = .ok () m') (l : Label) : m'.nameValue l = m.nameValue l := by
  obtain ⟨-, rfl⟩ := store_ok_iff.mp h
  simp only [nameValue, Memory.addressOf?, Memory.write]

end Machine

namespace Activation

variable (calls : Calls)

lemma perform_move {v : Exp} (hv : v.isCall = false) (a : Activation) (d : Exp) :
    a.perform calls (.move d v) = (do
      let d ← Machine.read (a.place · d)
      a.write (← Machine.read (a.eval · v)) d) := by
  cases v with
  | call f args => cases hv
  | _ => rfl

lemma perform_exp {v : Exp} (hv : v.isCall = false) (a : Activation) :
    a.perform calls (.exp v) = (do
      let _ ← Machine.read (a.eval · v)
      return a) := by
  cases v with
  | call f args => cases hv
  | _ => rfl

lemma perform_move_call (a : Activation) (d : Exp) (f : Label) (args : List Exp) :
    a.perform calls (.move d (.call f args)) = (do
      let d ← Machine.read (a.place · d)
      let values ← Machine.read (a.evalAll · args)
      a.write (← calls.run f values) d) := rfl

lemma perform_exp_call (a : Activation) (f : Label) (args : List Exp) :
    a.perform calls (.exp (.call f args)) = (do
      let values ← Machine.read (a.evalAll · args)
      let _ ← calls.run f values
      return a) := rfl

def exec (a : Activation) : Stm → Exec Activation
  | .jump l => Machine.read fun _ => a.goto l
  | .cjump c l l' => do
    let w ← Machine.read (a.eval · c)
    if w = 1 then Machine.read fun _ => a.goto l
    else if w = 0 then Machine.read fun _ => a.goto l'
    else throw (.invalidCondition w)
  | .label _ => pure a.advance
  | s => do return (← a.perform calls s).advance

lemma exec_of_move (a : Activation) (d v : Exp) :
    a.exec calls (.move d v) = (do return (← a.perform calls (.move d v)).advance) := rfl

lemma exec_of_exp (a : Activation) (v : Exp) :
    a.exec calls (.exp v) = (do return (← a.perform calls (.exp v)).advance) := rfl

lemma exec_of_cjump (a : Activation) (c : Exp) (l l' : Label) :
    a.exec calls (.cjump c l l') = (do
      let w ← Machine.read (a.eval · c)
      if w = 1 then Machine.read fun _ => a.goto l
      else if w = 0 then Machine.read fun _ => a.goto l'
      else throw (.invalidCondition w)) := rfl

def setTemp (a : Activation) (t : Temp) (w : Word) : Activation :=
  { a with temps := a.temps.insert t w }

variable {calls}
variable {a : Activation} {m m' : Machine} {e : Fault} {v : Exp} {w : Word}

lemma exec_move_temp (hv : v.isPure = true) (h : a.eval m v = .ok w) (t : Temp) :
    a.exec calls (.move (.temp t) v) m = .ok (a.setTemp t w).advance m := by
  simp [exec_of_move, perform_move calls (Exp.not_isCall_of_isPure hv), place, bind, EStateM.bind,
    Machine.read, h, write, pure, EStateM.pure, setTemp]

lemma exec_move_temp_error (hv : v.isPure = true) (h : a.eval m v = .error e) (t : Temp) :
    a.exec calls (.move (.temp t) v) m = .error e m := by
  simp [exec_of_move, perform_move calls (Exp.not_isCall_of_isPure hv), place, bind, EStateM.bind,
    Machine.read, h]

lemma exec_exp (hv : v.isPure = true) (h : a.eval m v = .ok w) :
    a.exec calls (.exp v) m = .ok a.advance m := by
  simp [exec_of_exp, perform_exp calls (Exp.not_isCall_of_isPure hv), bind, EStateM.bind,
    Machine.read, h, pure, EStateM.pure]

lemma exec_exp_error (hv : v.isPure = true) (h : a.eval m v = .error e) :
    a.exec calls (.exp v) m = .error e m := by
  simp [exec_of_exp, perform_exp calls (Exp.not_isCall_of_isPure hv), bind, EStateM.bind,
    Machine.read, h]

section Call

variable {f : Label} {args : List Exp} {values : List Word}

lemma exec_move_call (ha : a.evalAll m args = .ok values) (h : calls.run f values m = .ok w m')
    (t : Temp) : a.exec calls (.move (.temp t) (.call f args)) m = .ok (a.setTemp t w).advance m' := by
  simp [exec_of_move, perform_move_call, place, bind, EStateM.bind, Machine.read, ha, h, write,
    pure, EStateM.pure, setTemp]

lemma exec_move_call_error (ha : a.evalAll m args = .ok values)
    (h : calls.run f values m = .error e m') (t : Temp) :
    a.exec calls (.move (.temp t) (.call f args)) m = .error e m' := by
  simp [exec_of_move, perform_move_call, place, bind, EStateM.bind, Machine.read, ha, h]

lemma exec_move_args_error (ha : a.evalAll m args = .error e) (t : Temp) :
    a.exec calls (.move (.temp t) (.call f args)) m = .error e m := by
  simp [exec_of_move, perform_move_call, place, bind, EStateM.bind, Machine.read, ha]

lemma exec_exp_call (ha : a.evalAll m args = .ok values) (h : calls.run f values m = .ok w m') :
    a.exec calls (.exp (.call f args)) m = .ok a.advance m' := by
  simp [exec_of_exp, perform_exp_call, bind, EStateM.bind, Machine.read, ha, h, pure, EStateM.pure]

lemma exec_exp_call_error (ha : a.evalAll m args = .ok values)
    (h : calls.run f values m = .error e m') :
    a.exec calls (.exp (.call f args)) m = .error e m' := by
  simp [exec_of_exp, perform_exp_call, bind, EStateM.bind, Machine.read, ha, h]

lemma exec_exp_args_error (ha : a.evalAll m args = .error e) :
    a.exec calls (.exp (.call f args)) m = .error e m := by
  simp [exec_of_exp, perform_exp_call, bind, EStateM.bind, Machine.read, ha]

end Call

section Store

variable {x : Exp} {address : Word}

lemma exec_move_mem (hv : v.isPure = true) (hx : a.eval m x = .ok address)
    (h : a.eval m v = .ok w) (hs : Machine.store address.toInt w m = .ok () m') :
    a.exec calls (.move (.mem x) v) m = .ok a.advance m' := by
  simp [exec_of_move, perform_move calls (Exp.not_isCall_of_isPure hv), place, hx, bind,
    EStateM.bind, Except.bind, pure, Except.pure, EStateM.pure, Machine.read, h, write, hs]

lemma exec_move_mem_store_error (hv : v.isPure = true) (hx : a.eval m x = .ok address)
    (h : a.eval m v = .ok w) (hs : Machine.store address.toInt w m = .error e m') :
    a.exec calls (.move (.mem x) v) m = .error e m' := by
  simp [exec_of_move, perform_move calls (Exp.not_isCall_of_isPure hv), place, hx, bind,
    EStateM.bind, Except.bind, pure, Except.pure, Machine.read, h, write, hs]

lemma exec_move_mem_value_error (hv : v.isPure = true) (hx : a.eval m x = .ok address)
    (h : a.eval m v = .error e) : a.exec calls (.move (.mem x) v) m = .error e m := by
  simp [exec_of_move, perform_move calls (Exp.not_isCall_of_isPure hv), place, hx, bind,
    EStateM.bind, Except.bind, pure, Except.pure, Machine.read, h]

lemma exec_move_mem_address_error (hv : v.isPure = true) (hx : a.eval m x = .error e) :
    a.exec calls (.move (.mem x) v) m = .error e m := by
  simp [exec_of_move, perform_move calls (Exp.not_isCall_of_isPure hv), place, hx, bind,
    EStateM.bind, Except.bind, Machine.read]

end Store

section Jump

variable {l l' : Label} {pc : Nat}

lemma exec_label : a.exec calls (.label l) m = .ok a.advance m := rfl

lemma exec_jump (ht : a.routine.targets[l]? = some pc) :
    a.exec calls (.jump l) m = .ok { a with pc } m := by
  simp [exec, Machine.read, goto, ht]

lemma exec_cjump_one (h : a.eval m v = .ok 1) (ht : a.routine.targets[l]? = some pc) :
    a.exec calls (.cjump v l l') m = .ok { a with pc } m := by
  simp [exec_of_cjump, Machine.read, goto, bind, EStateM.bind, h, ht]

lemma exec_cjump_zero (h : a.eval m v = .ok 0) (ht : a.routine.targets[l']? = some pc) :
    a.exec calls (.cjump v l l') m = .ok { a with pc } m := by
  have h01 : ((0 : Word) = 1) = False := by decide
  simp [exec_of_cjump, Machine.read, goto, bind, EStateM.bind, h, ht, h01]

lemma exec_cjump_invalid (h : a.eval m v = .ok w) (h1 : ¬w = 1) (h0 : ¬w = 0) :
    a.exec calls (.cjump v l l') m = .error (.invalidCondition w) m := by
  simp [exec_of_cjump, Machine.read, bind, EStateM.bind, h, h1, h0]
  rfl

lemma exec_cjump_error (h : a.eval m v = .error e) :
    a.exec calls (.cjump v l l') m = .error e m := by
  simp [exec_of_cjump, Machine.read, bind, EStateM.bind, h]

end Jump

lemma nameValue_write {b : Activation} {d : Destination} (h : a.write w d m = .ok b m') (l : Label) :
    m'.nameValue l = m.nameValue l := by
  cases d with
  | temp t => cases h; rfl
  | discard => cases h; rfl
  | memory address =>
    simp only [write, bind, EStateM.bind] at h
    cases hs : Machine.store address w m with
    | error e m₁ => simp [hs] at h
    | ok u m₁ =>
      simp only [hs, pure, EStateM.pure, EStateM.Result.ok.injEq] at h
      rw [← h.2]
      exact Machine.nameValue_store hs l

end Activation

lemma Exec.bind_ok {α β : Type} {x : Exec α} {f : α → Exec β} {m m' : Machine} {b : β} :
    (x >>= f) m = .ok b m' ↔ ∃ a m₁, x m = .ok a m₁ ∧ f a m₁ = .ok b m' := by
  simp only [bind, EStateM.bind]
  cases x m <;> simp

lemma Machine.read_ok_iff {α : Type} {f : Machine → Except Fault α} {m m' : Machine} {a : α} :
    read f m = .ok a m' ↔ f m = .ok a ∧ m = m' := by
  unfold read
  cases f m <;> simp

lemma Exec.pure_ok {α : Type} {a b : α} {m m' : Machine} :
    (pure a : Exec α) m = .ok b m' ↔ a = b ∧ m = m' := by
  simp [pure, EStateM.pure]

namespace Activation

variable {calls : Calls} {a b : Activation} {s : Stm} {m m' : Machine}

lemma write_keeps {w : Word} {d : Destination} (h : a.write w d m = .ok b m') :
    b.routine = a.routine ∧ b.pc = a.pc := by
  cases d with
  | temp t =>
    obtain ⟨rfl, -⟩ := Exec.pure_ok.mp h
    exact ⟨rfl, rfl⟩
  | discard =>
    obtain ⟨rfl, -⟩ := Exec.pure_ok.mp h
    exact ⟨rfl, rfl⟩
  | memory address =>
    obtain ⟨_, m₁, -, hb⟩ := Exec.bind_ok.mp h
    obtain ⟨rfl, -⟩ := Exec.pure_ok.mp hb
    exact ⟨rfl, rfl⟩

lemma perform_keeps (h : a.perform calls s m = .ok b m') :
    b.routine = a.routine ∧ b.pc = a.pc := by
  unfold perform at h
  split at h
  · simp only [Exec.bind_ok] at h
    obtain ⟨_, _, -, _, _, -, _, _, -, hw⟩ := h
    exact write_keeps hw
  · simp only [Exec.bind_ok] at h
    obtain ⟨_, _, -, _, _, -, hw⟩ := h
    exact write_keeps hw
  · simp only [Exec.bind_ok, Exec.pure_ok] at h
    obtain ⟨_, _, -, _, _, -, rfl, -⟩ := h
    exact ⟨rfl, rfl⟩
  · simp only [Exec.bind_ok, Exec.pure_ok] at h
    obtain ⟨_, _, -, rfl, -⟩ := h
    exact ⟨rfl, rfl⟩
  · cases h

lemma goto_ok {l : Label} :
    a.goto l = .ok b ↔ ∃ pc, a.routine.targets[l]? = some pc ∧ b = { a with pc } := by
  unfold goto
  cases a.routine.targets[l]? with
  | none => simp
  | some pc => simp [eq_comm]

lemma goto_keeps {l : Label} (h : a.goto l = .ok b) : b.routine = a.routine := by
  obtain ⟨pc, -, rfl⟩ := goto_ok.mp h
  rfl

lemma exec_keeps (h : a.exec calls s m = .ok b m') : b.routine = a.routine := by
  unfold exec at h
  split at h
  · exact goto_keeps (Machine.read_ok_iff.mp h).1
  · obtain ⟨w, _, -, h⟩ := Exec.bind_ok.mp h
    split at h
    · exact goto_keeps (Machine.read_ok_iff.mp h).1
    · split at h
      · exact goto_keeps (Machine.read_ok_iff.mp h).1
      · cases h
  · obtain ⟨rfl, -⟩ := Exec.pure_ok.mp h
    rfl
  · obtain ⟨c, _, hp, h⟩ := Exec.bind_ok.mp h
    obtain ⟨rfl, -⟩ := Exec.pure_ok.mp h
    exact (perform_keeps hp).1

end Activation

lemma Activation.nameValue_perform {calls : Calls} {a b : Activation} {s : Stm} {m m' : Machine}
    (h : a.perform calls s m = .ok b m') (l : Label) : m'.nameValue l = m.nameValue l := by
  unfold perform at h
  split at h
  · simp only [Exec.bind_ok, Machine.read_ok_iff] at h
    obtain ⟨d, _, ⟨-, rfl⟩, values, _, ⟨-, rfl⟩, w, m₁, hc, hw⟩ := h
    rw [nameValue_write hw l, calls.steady hc l]
  · simp only [Exec.bind_ok, Machine.read_ok_iff] at h
    obtain ⟨d, _, ⟨-, rfl⟩, w, _, ⟨-, rfl⟩, hw⟩ := h
    exact nameValue_write hw l
  · simp only [Exec.bind_ok, Machine.read_ok_iff, Exec.pure_ok] at h
    obtain ⟨values, _, ⟨-, rfl⟩, w, m₁, hc, -, rfl⟩ := h
    exact calls.steady hc l
  · simp only [Exec.bind_ok, Machine.read_ok_iff, Exec.pure_ok] at h
    obtain ⟨w, _, ⟨-, rfl⟩, -, rfl⟩ := h
    rfl
  · cases h

lemma Activation.nameValue_exec {calls : Calls} {a b : Activation} {s : Stm} {m m' : Machine}
    (h : a.exec calls s m = .ok b m') (l : Label) : m'.nameValue l = m.nameValue l := by
  unfold exec at h
  split at h
  · obtain ⟨-, rfl⟩ := Machine.read_ok_iff.mp h
    rfl
  · simp only [Exec.bind_ok, Machine.read_ok_iff] at h
    obtain ⟨w, _, ⟨-, rfl⟩, h⟩ := h
    split at h
    · obtain ⟨-, rfl⟩ := Machine.read_ok_iff.mp h
      rfl
    · split at h
      · obtain ⟨-, rfl⟩ := Machine.read_ok_iff.mp h
        rfl
      · cases h
  · cases h
    rfl
  · simp only [Exec.bind_ok, Exec.pure_ok] at h
    obtain ⟨c, m₁, hp, -, rfl⟩ := h
    exact nameValue_perform hp l

inductive Reach (calls : Calls) : Nat → Activation → Machine → Activation → Machine → Prop
  | refl {a m} : Reach calls 0 a m a m
  | step {k a m s b m' c m''} (hs : a.routine.code[a.pc]? = some s)
      (hx : a.exec calls s m = .ok b m') (hr : Reach calls k b m' c m'') :
      Reach calls (k + 1) a m c m''

def Faults (calls : Calls) (a : Activation) (m : Machine) (e : Fault) (m' : Machine) : Prop :=
  ∃ s, a.routine.code[a.pc]? = some s ∧ a.exec calls s m = .error e m'

namespace Reach

variable {calls : Calls} {a b c : Activation} {m m' m'' : Machine} {j k : Nat}

lemma single {s : Stm} (hs : a.routine.code[a.pc]? = some s) (hx : a.exec calls s m = .ok b m') :
    Reach calls 1 a m b m' :=
  .step hs hx .refl

lemma trans (h : Reach calls j a m b m') (h' : Reach calls k b m' c m'') :
    Reach calls (j + k) a m c m'' := by
  induction h with
  | refl => simpa using h'
  | step hs hx _ ih =>
    have hr := Reach.step hs hx (ih h')
    rwa [Nat.add_right_comm] at hr

lemma nameValue (h : Reach calls k a m b m') (l : Label) : m'.nameValue l = m.nameValue l := by
  induction h with
  | refl => rfl
  | step _ hx _ ih => rw [ih, Activation.nameValue_exec hx]

lemma routine (h : Reach calls k a m b m') : b.routine = a.routine := by
  induction h with
  | refl => rfl
  | step _ hx _ ih => rw [ih, Activation.exec_keeps hx]

end Reach

namespace Routine

def At (r : Routine) : Nat → List Stm → Prop
  | _, [] => True
  | p, s :: ss => r.code[p]? = some s ∧ r.At (p + 1) ss

def Resolved (r : Routine) : Prop :=
  ∀ (p : Nat) (l : Label), r.code[p]? = some (.label l) → r.targets[l]? = some p

lemma at_append {r : Routine} {p : Nat} {c d : List Stm} :
    r.At p (c ++ d) ↔ r.At p c ∧ r.At (p + c.length) d := by
  induction c generalizing p with
  | nil => simp [At]
  | cons s c ih => simp [At, ih, and_assoc, Nat.add_assoc, Nat.add_comm 1]

@[simp] lemma at_nil {r : Routine} {p : Nat} : r.At p [] := trivial

@[simp] lemma at_cons {r : Routine} {p : Nat} {s : Stm} {c : List Stm} :
    r.At p (s :: c) ↔ r.code[p]? = some s ∧ r.At (p + 1) c := Iff.rfl

lemma at_toArray (f : Frame) (targets : Std.TreeMap Label Nat) (pre c : List Stm) :
    (Routine.mk f (pre ++ c).toArray targets).At pre.length c := by
  induction c generalizing pre with
  | nil => trivial
  | cons s c ih =>
    refine ⟨by simp, ?_⟩
    have h := ih (pre ++ [s])
    simpa using h

end Routine

end BlockLang
