import BlockLang.Proofs.ControlFlow
import BlockLang.Proofs.Simulation

/-! Linearization keeps the meaning of trees without jumps. Calls are arbitrary; a fault shows at
the same machine as long as names are bound and temporaries are set, since constants and temporaries
that are only discarded are never computed in linear code. -/

namespace BlockLang

open Code

namespace Action

variable {σ α β : Type}

def observe (strict : Bool) (x : Action σ α) : Action σ α := fun s =>
  match x s with
  | .done a s' => .done a s'
  | .fault e s' => if strict then .fault e s' else .unfinished
  | .unfinished => .unfinished

@[simp] lemma observe_pure (strict : Bool) (a : α) :
    (pure a : Action σ α).observe strict = pure a := rfl

@[simp] lemma observe_bind (strict : Bool) (x : Action σ α) (f : α → Action σ β) :
    (x >>= f).observe strict = x.observe strict >>= fun a => (f a).observe strict := by
  funext s
  simp only [observe, bind]
  cases x s with
  | done a s' => rfl
  | fault e s' => cases strict <;> rfl
  | unfinished => rfl

lemma observe_true (x : Action σ α) : x.observe true = x := by
  funext s
  simp only [observe]
  cases x s <;> rfl

lemma observe_exec_done {x : Exec α} {s : TreeState} {a : α} {m : Machine} (strict : Bool)
    (h : x s.2 = .ok a m) : (exec x).observe strict s = .done a (s.1, m) := by
  simp [observe, exec, h]

lemma observe_exec_fault {x : Exec α} {s : TreeState} {e : Fault} {m : Machine} (strict : Bool)
    (h : x s.2 = .error e m) :
    (exec x).observe strict s = if strict then .fault e (s.1, m) else .unfinished := by
  simp [observe, exec, h]

end Action

def Ready (names : List Label) (temps : List Temp) (s : TreeState) : Prop :=
  (∀ l ∈ names, ∃ w, s.2.nameValue l = .ok w) ∧ ∀ t ∈ temps, ∃ w, s.1.temps[t]? = some w

/-- Trees and linear code run on the same machine, and temporaries below `bound` agree. -/
def treeSim (calls : Calls) (routine : Routine) (resolved : routine.Resolved) (bound : Nat)
    (strict : Bool) (names : List Label) (temps : List Temp) : Sim TreeState where
  calls
  routine
  resolved
  fuel := 0
  bound
  Rel s a m := s.2 = m ∧ (∀ t : Temp, t.toNat < bound → a.temps[t]? = s.1.temps[t]?) ∧
    (strict = true → Ready names temps s)
  Last s m := s.2 = m
  last_of_rel h := h.1
  rel_congr h ht := ⟨h.1, fun t hb => (ht t hb).trans (h.2.1 t hb), h.2.2⟩

namespace Sim

variable {σ : Type} {S : Sim σ} {x : Exp} {f : Action σ Word}

structure Carries (S : Sim σ) (put : Temp → Word → Action σ Unit) (x : Exp) (f : Action σ Word) :
    Prop where
  computes : S.Computes x f
  moves : ∀ t : Temp, t.toNat < S.bound → S.Performs (.move (.temp t) x) (do put t (← f))
  discards : S.Performs (.exp x) (do let _ ← f)

variable {put : Temp → Word → Action σ Unit}
variable (hput : ∀ (t : Temp) a m s w, t.toNat < S.bound → S.Rel s a m →
  ∃ s', put t w s = .done () s' ∧ S.Rel s' (a.setTemp t w) m)

include hput

lemma Carries.of_computes (hc : x.isCall = false) (hx : S.Computes x f) : S.Carries put x f where
  computes := hx
  moves t ht := Performs.move_temp ht hc hx fun a m s w => hput t a m s w ht
  discards := Performs.exp hc hx

lemma Carries.of_call {l : Label} {xs : List Exp} {g : Action σ (List Word)}
    {run : List Word → Action σ Word} (hxs : S.ComputesAll xs g)
    (hcall : ∀ a m s ws, S.Rel s a m → S.Changes a (S.calls.run l ws m) (run ws s)) :
    S.Carries put (.call l xs) (g >>= run) where
  computes := Computes.call hxs hcall
  moves t ht := Performs.move_call ht hxs hcall fun a m s w => hput t a m s w ht
  discards := Performs.exp_call hxs hcall

end Sim

section Trees

variable {calls : Calls} {routine : Routine} {resolved : routine.Resolved} {bound : Nat}
variable {strict : Bool} {names : List Label} {temps : List Temp}

lemma treeSim_changes {α : Type} {x : Exec α} {a : Activation} {m : Machine} {s : TreeState}
    (hx : ∀ {w m'}, x m = .ok w m' → ∀ l, m'.nameValue l = m.nameValue l)
    (hrel : (treeSim calls routine resolved bound strict names temps).Rel s a m) :
    (treeSim calls routine resolved bound strict names temps).Changes a (x m)
      ((Action.exec x).observe strict s) := by
  obtain ⟨rfl, ht, hready⟩ := hrel
  cases h : x s.2 with
  | ok w m' =>
    rw [Action.observe_exec_done strict h]
    refine ⟨m', rfl, rfl, ht, fun hs => ⟨fun l hl => ?_, (hready hs).2⟩⟩
    rw [hx h l]
    exact (hready hs).1 l hl
  | error e m' =>
    rw [Action.observe_exec_fault strict h]
    cases strict with
    | true => exact ⟨m', rfl, rfl⟩
    | false => exact rfl

lemma treeSim_put (t : Temp) (a : Activation) (m : Machine) (s : TreeState) (w : Word)
    (_ : t.toNat < bound)
    (hrel : (treeSim calls routine resolved bound strict names temps).Rel s a m) :
    ∃ s', (Action.setTemp t w).observe strict s = .done () s' ∧
      (treeSim calls routine resolved bound strict names temps).Rel s' (a.setTemp t w) m := by
  obtain ⟨rfl, ht, hready⟩ := hrel
  refine ⟨(s.1.setTemp t w, s.2), rfl, rfl, fun t' hb => ?_,
    fun hs => ⟨(hready hs).1, fun t' ht' => ?_⟩⟩
  · simp only [Activation.getElem?_setTemp, ht t' hb]
  · simp only [Activation.getElem?_setTemp]
    split
    · exact ⟨w, rfl⟩
    · exact (hready hs).2 t' ht'

lemma treeSim_gives {v : Exp} {a : Activation} {m : Machine} {s : TreeState}
    {look : Machine → Except Fault Word} (he : a.eval m v = look m)
    (hd : strict = true → ∀ e, look m = .error e → v.discard ≠ [])
    (hrel : (treeSim calls routine resolved bound strict names temps).Rel s a m) :
    (treeSim calls routine resolved bound strict names temps).Gives a m v
      ((Action.exec (Machine.read look)).observe strict s) := by
  have hs : s.2 = m := hrel.1
  cases h : look m with
  | ok w =>
    rw [Action.observe_exec_done strict (Machine.read_ok (hs ▸ h))]
    exact ⟨hs ▸ hrel, he.trans h⟩
  | error e =>
    rw [Action.observe_exec_fault strict (Machine.read_error (hs ▸ h))]
    cases strict with
    | true => exact ⟨hs, he.trans h, hd rfl e h⟩
    | false => exact rfl

lemma treeSim_gives_binop {op : Op} {u v : Exp} {i j : Word} {a : Activation} {m : Machine}
    {s : TreeState} (hu : a.eval m u = .ok i) (hv : a.eval m v = .ok j)
    (hrel : (treeSim calls routine resolved bound strict names temps).Rel s a m) :
    (treeSim calls routine resolved bound strict names temps).Gives a m (.binop op u v)
      ((Action.compute op i j).observe strict s) := by
  have h : (treeSim calls routine resolved bound strict names temps).Gives a m (.binop op u v)
      (Action.compute op i j s) := Sim.gives_binop hrel hu hv
  unfold Action.observe
  generalize Action.compute op i j s = r at h
  cases r with
  | done w s' => exact h
  | fault e s' =>
    cases strict with
    | true => exact h
    | false => exact rfl
  | unfinished => exact h

lemma Code.Exp.computes_temp {t : Temp} (hb : t.toNat < bound) (ht : t ∈ temps) :
    (treeSim calls routine resolved bound strict names temps).Computes (.temp t)
      (((Exp.temp t).evaluate calls).observe strict) := by
  refine Sim.Computes.of_isPure rfl fun a m s _ hrel => ?_
  have he : a.eval m (.temp t) = s.1.eval m (.temp t) := by
    simp only [Activation.eval, hrel.2.1 t hb]
  refine treeSim_gives he (fun hs e h => ?_) hrel
  obtain ⟨w, hw⟩ := (hrel.2.2 hs).2 t ht
  simp [Activation.eval, hw] at h

lemma Code.Exp.computes_name {l : Label} (hl : l ∈ names) :
    (treeSim calls routine resolved bound strict names temps).Computes (.name l)
      (((Exp.name l).evaluate calls).observe strict) := by
  refine Sim.Computes.of_isPure rfl fun a m s _ hrel => ?_
  refine treeSim_gives rfl (fun hs e h => ?_) hrel
  obtain ⟨w, hw⟩ := (hrel.2.2 hs).1 l hl
  rw [hrel.1] at hw
  simp [hw] at h

mutual

lemma Code.Exp.carries (hb : ∀ t ∈ temps, t.toNat < bound) (x : Exp) (hx : x.isStraight = true) (ht : x.temps ⊆ temps)
    (hn : x.names ⊆ names) :
    (treeSim calls routine resolved bound strict names temps).Carries
      (fun t w => (Action.setTemp t w).observe strict) x ((x.evaluate calls).observe strict) := by
  cases x with
  | const w =>
    refine Sim.Carries.of_computes treeSim_put rfl ?_
    exact Sim.Computes.of_isPure rfl fun a m s _ hrel => ⟨hrel, rfl⟩
  | name l =>
    exact Sim.Carries.of_computes treeSim_put rfl (Exp.computes_name (hn (by simp [Exp.names])))
  | temp t =>
    exact Sim.Carries.of_computes treeSim_put rfl
      (Exp.computes_temp (hb t (ht (by simp [Exp.temps]))) (ht (by simp [Exp.temps])))
  | mem y =>
    simp only [Exp.isStraight] at hx
    simp only [Exp.temps] at ht
    simp only [Exp.names] at hn
    have hy := (Exp.carries hb y hx ht hn).computes
    refine Sim.Carries.of_computes treeSim_put rfl ?_
    simp only [Exp.evaluate, Action.observe_bind]
    refine Sim.Computes.mem hy fun a m s w hrel v hv => treeSim_gives ?_ (fun _ _ _ => ?_) hrel
    · simp [Activation.eval, hv, bind, Except.bind]
    · simp [Exp.discard]
  | binop op y z =>
    simp only [Exp.isStraight, Bool.and_eq_true] at hx
    simp only [Exp.temps, List.append_subset] at ht
    simp only [Exp.names, List.append_subset] at hn
    have hy := (Exp.carries hb y hx.1 ht.1 hn.1).computes
    have hz := (Exp.carries hb z hx.2 ht.2 hn.2).computes
    refine Sim.Carries.of_computes treeSim_put rfl ?_
    simp only [Exp.evaluate, Action.observe_bind]
    exact Sim.Computes.binop hy hz fun a m s i j hrel u v hu hv =>
      treeSim_gives_binop hu hv hrel
  | call f xs =>
    simp only [Exp.isStraight] at hx
    simp only [Exp.temps] at ht
    simp only [Exp.names] at hn
    have hxs := Exp.computesAll hb xs hx ht hn
    simp only [Exp.evaluate, Action.observe_bind]
    exact Sim.Carries.of_call treeSim_put hxs fun a m s ws hrel =>
      treeSim_changes (fun h l => calls.steady h l) hrel
  | eseq s y =>
    simp only [Exp.isStraight, Bool.and_eq_true] at hx
    simp only [Exp.temps, List.append_subset] at ht
    simp only [Exp.names, List.append_subset] at hn
    have hs := Stm.performs hb s hx.1 ht.1 hn.1
    have hy := (Exp.carries hb y hx.2 ht.2 hn.2).computes
    refine Sim.Carries.of_computes treeSim_put rfl ?_
    simp only [Exp.evaluate, Action.observe_bind]
    exact Sim.Computes.eseq hs hy

lemma Code.Exp.computesAll (hb : ∀ t ∈ temps, t.toNat < bound) (xs : List Exp)
    (hx : Exp.areStraight xs = true) (ht : Exp.tempsAll xs ⊆ temps) (hn : Exp.namesAll xs ⊆ names) :
    (treeSim calls routine resolved bound strict names temps).ComputesAll xs
      ((Exp.evaluateAll calls xs).observe strict) := by
  cases xs with
  | nil => exact Sim.ComputesAll.nil
  | cons x xs =>
    simp only [Exp.areStraight, Bool.and_eq_true] at hx
    simp only [Exp.tempsAll, List.append_subset] at ht
    simp only [Exp.namesAll, List.append_subset] at hn
    have hhead := (Exp.carries hb x hx.1 ht.1 hn.1).computes
    have htail := Exp.computesAll hb xs hx.2 ht.2 hn.2
    simp only [Exp.evaluateAll, Action.observe_bind, Action.observe_pure]
    exact Sim.Computes.cons hhead htail

lemma Code.Exp.receives (hb : ∀ t ∈ temps, t.toNat < bound) (d : Exp) {x : Exp}
    {f : Action TreeState Word}
    (hx : (treeSim calls routine resolved bound strict names temps).Carries
      (fun t w => (Action.setTemp t w).observe strict) x (f.observe strict))
    (hd : d.isPlace = true) (ht : d.temps ⊆ temps) (hn : d.names ⊆ names) :
    (treeSim calls routine resolved bound strict names temps).Performs (.move d x)
      ((d.receive calls f).observe strict) := by
  cases d with
  | temp t =>
    simp only [Exp.receive, Action.observe_bind]
    exact hx.moves t (hb t (ht (by simp [Exp.temps])))
  | mem y =>
    simp only [Exp.isPlace] at hd
    simp only [Exp.temps] at ht
    simp only [Exp.names] at hn
    have hy := (Exp.carries hb y hd ht hn).computes
    simp only [Exp.receive, Action.observe_bind]
    exact Sim.Performs.move_mem hy hx.computes fun a m s u w _ hrel =>
      treeSim_changes (fun h l => Machine.nameValue_store h l) hrel
  | eseq s y =>
    simp only [Exp.isPlace, Bool.and_eq_true] at hd
    simp only [Exp.temps, List.append_subset] at ht
    simp only [Exp.names, List.append_subset] at hn
    have hs := Stm.performs hb s hd.1 ht.1 hn.1
    have hy := Exp.receives hb y hx hd.2 ht.2 hn.2
    simp only [Exp.receive, Action.observe_bind]
    exact Sim.Performs.move_eseq hs hy
  | _ => cases hd

lemma Code.Stm.performs (hb : ∀ t ∈ temps, t.toNat < bound) (s : Stm)
    (hs : s.isStraight = true) (ht : s.temps ⊆ temps) (hn : s.names ⊆ names) :
    (treeSim calls routine resolved bound strict names temps).Performs s
      ((s.evaluate calls).observe strict) := by
  cases s with
  | move d x =>
    simp only [Stm.isStraight, Bool.and_eq_true] at hs
    simp only [Stm.temps, List.append_subset] at ht
    simp only [Stm.names, List.append_subset] at hn
    exact Exp.receives hb d (Exp.carries hb x hs.2 ht.2 hn.2) hs.1 ht.1 hn.1
  | exp x =>
    simp only [Stm.evaluate, Action.observe_bind, Action.observe_pure]
    exact (Exp.carries hb x hs ht hn).discards
  | seq ss => exact Stm.performsAll hb ss hs ht hn
  | cjump _ _ _ => cases hs
  | jump _ => cases hs
  | label _ => cases hs

lemma Code.Stm.performsAll (hb : ∀ t ∈ temps, t.toNat < bound) (ss : List Stm)
    (hs : Stm.areStraight ss = true) (ht : Stm.tempsAll ss ⊆ temps) (hn : Stm.namesAll ss ⊆ names) :
    (treeSim calls routine resolved bound strict names temps).Performs (.seq ss)
      ((Stm.evaluateAll calls ss).observe strict) := by
  cases ss with
  | nil => exact Sim.Performs.seq_nil
  | cons s ss =>
    simp only [Stm.areStraight, Bool.and_eq_true] at hs
    simp only [Stm.tempsAll, List.append_subset] at ht
    simp only [Stm.namesAll, List.append_subset] at hn
    have hhead := Stm.performs hb s hs.1 ht.1 hn.1
    have htail := Stm.performsAll hb ss hs.2 ht.2 hn.2
    simp only [Stm.evaluateAll, Action.observe_bind]
    exact Sim.Performs.seq_cons hhead htail

end

end Trees

namespace Activation

variable {calls : Calls} {a b : Activation} {m m' : Machine} {s : Stm} {r : Routine}

lemma exec_of_control?_eq_none (hs : s.control? = none) :
    a.exec calls s = do return (← a.perform calls s).advance := by
  cases s <;> first | rfl | cases hs

def rest (a : Activation) : List Stm := a.routine.code.toList.drop a.pc

lemma rest_eq_cons (h : a.routine.code[a.pc]? = some s) :
    a.rest = s :: a.routine.code.toList.drop (a.pc + 1) := by
  obtain ⟨hp, rfl⟩ := Array.getElem?_eq_some_iff.mp h
  rw [rest, List.drop_eq_getElem_cons (by simpa using hp)]
  simp

lemma performAll_of_reach {k : Nat} (h : Reach calls k a m b m')
    (hc : controlsOf a.routine.code.toList = []) :
    a.performAll calls a.rest m = b.performAll calls b.rest m' := by
  induction h with
  | refl => rfl
  | @step k a m s b m' c m'' hs hx hr ih =>
    have hplain : s.control? = none :=
      List.filterMap_eq_nil_iff.mp hc s (Array.mem_toList_iff.mpr (Array.mem_of_getElem? hs))
    rw [exec_of_control?_eq_none hplain] at hx
    obtain ⟨b', m₁, hp, hb⟩ := Exec.bind_ok.mp hx
    obtain ⟨rfl, rfl⟩ := Exec.pure_ok.mp hb
    obtain ⟨hr', hpc⟩ := perform_keeps hp
    have hrest : b'.advance.rest = a.routine.code.toList.drop (a.pc + 1) := by
      simp [rest, advance, hr', hpc]
    rw [← ih (by simpa [advance, hr'] using hc), rest_eq_cons hs, hrest]
    simp [performAll, bind, EStateM.bind, hp]

lemma performAll_of_faults {e : Fault} (h : Faults calls a m e m')
    (hc : controlsOf a.routine.code.toList = []) : a.performAll calls a.rest m = .error e m' := by
  obtain ⟨s, hs, hx⟩ := h
  have hplain : s.control? = none :=
    List.filterMap_eq_nil_iff.mp hc s (Array.mem_toList_iff.mpr (Array.mem_of_getElem? hs))
  rw [exec_of_control?_eq_none hplain] at hx
  rw [rest_eq_cons hs]
  cases hp : a.perform calls s m with
  | ok b m₁ => simp [bind, EStateM.bind, hp, pure, EStateM.pure] at hx
  | error e' m₁ =>
    simp only [bind, EStateM.bind, hp] at hx
    simpa [performAll, bind, EStateM.bind, hp] using hx

def withRoutine (a : Activation) (r : Routine) : Activation := { a with routine := r }

section WithRoutine

variable (hf : r.frame = a.routine.frame)

include hf

lemma eval_withRoutine : ∀ x : Exp, (a.withRoutine r).eval m x = a.eval m x
  | .const _ | .name _ | .temp _ => rfl
  | .mem x => by simp only [eval, eval_withRoutine x]
  | .binop _ x y => by simp only [eval, eval_withRoutine x, eval_withRoutine y]
  | .call _ _ | .eseq _ _ => by simp only [eval, label, withRoutine, hf]

lemma evalAll_withRoutine (xs : List Exp) : (a.withRoutine r).evalAll m xs = a.evalAll m xs := by
  induction xs with
  | nil => rfl
  | cons x xs ih => simp only [evalAll, eval_withRoutine hf, ih]

lemma place_withRoutine (x : Exp) : (a.withRoutine r).place m x = a.place m x := by
  cases x with
  | mem x => simp only [place, eval_withRoutine hf]
  | temp t => rfl
  | _ => simp only [place, label, withRoutine, hf]

omit hf in
lemma write_withRoutine (w : Word) (d : Destination) :
    (a.withRoutine r).write w d = (withRoutine · r) <$> a.write w d := by
  cases d with
  | temp t => rfl
  | memory address => simp [write]
  | discard => rfl

lemma perform_withRoutine (s : Stm) :
    (a.withRoutine r).perform calls s = (withRoutine · r) <$> a.perform calls s := by
  unfold perform
  split
  · simp only [place_withRoutine hf, evalAll_withRoutine hf, write_withRoutine, map_bind]
  · simp only [place_withRoutine hf, eval_withRoutine hf, write_withRoutine, map_bind]
  · simp only [evalAll_withRoutine hf, map_bind, map_pure]
  · simp only [eval_withRoutine hf, map_bind, map_pure]
  · simp only [label, withRoutine, hf]
    rfl

end WithRoutine

lemma performAll_withRoutine (hf : r.frame = a.routine.frame) (ss : List Stm) :
    (a.withRoutine r).performAll calls ss m = ((withRoutine · r) <$> a.performAll calls ss) m := by
  induction ss generalizing a m with
  | nil => rfl
  | cons s ss ih =>
    simp only [performAll, perform_withRoutine hf, map_bind, bind_map_left]
    simp only [bind, EStateM.bind]
    cases hp : a.perform calls s m with
    | ok b m' =>
      exact ih (a := b.advance) (hf.trans (congrArg Routine.frame (perform_keeps hp).1.symm))
    | error e m' => rfl

lemma performAll_of_withRoutine_ok (hf : r.frame = a.routine.frame) {ss : List Stm}
    (h : (a.withRoutine r).performAll calls ss m = .ok b m') :
    ∃ c, a.performAll calls ss m = .ok c m' ∧ c.temps = b.temps := by
  rw [performAll_withRoutine hf] at h
  simp only [Functor.map, EStateM.map] at h
  cases hp : a.performAll calls ss m with
  | ok c m₁ =>
    rw [hp] at h
    obtain ⟨rfl, rfl⟩ := EStateM.Result.ok.inj h
    exact ⟨c, rfl, rfl⟩
  | error e m₁ =>
    rw [hp] at h
    cases h

lemma performAll_of_withRoutine_error (hf : r.frame = a.routine.frame) {ss : List Stm} {e : Fault}
    (h : (a.withRoutine r).performAll calls ss m = .error e m') :
    a.performAll calls ss m = .error e m' := by
  rw [performAll_withRoutine hf] at h
  simp only [Functor.map, EStateM.map] at h
  cases hp : a.performAll calls ss m with
  | ok c m₁ =>
    rw [hp] at h
    cases h
  | error e m₁ =>
    rw [hp] at h
    exact h

end Activation

mutual

lemma Code.Exp.controls_eq_nil (x : Exp) (hx : x.isStraight = true) : x.controls = [] := by
  cases x with
  | const w => rfl
  | name l => rfl
  | temp t => rfl
  | mem y =>
    simp only [Exp.isStraight] at hx
    simp [Exp.controls, Exp.controls_eq_nil y hx]
  | binop op y z =>
    simp only [Exp.isStraight, Bool.and_eq_true] at hx
    simp [Exp.controls, Exp.controls_eq_nil y hx.1, Exp.controls_eq_nil z hx.2]
  | call f xs =>
    simp only [Exp.isStraight] at hx
    simp [Exp.controls, Exp.controlsAll_eq_nil xs hx]
  | eseq s y =>
    simp only [Exp.isStraight, Bool.and_eq_true] at hx
    simp [Exp.controls, Stm.controls_eq_nil s hx.1, Exp.controls_eq_nil y hx.2]

lemma Code.Exp.controlsAll_eq_nil (xs : List Exp) (hx : Exp.areStraight xs = true) :
    Exp.controlsAll xs = [] := by
  cases xs with
  | nil => rfl
  | cons x xs =>
    simp only [Exp.areStraight, Bool.and_eq_true] at hx
    simp [Exp.controlsAll, Exp.controls_eq_nil x hx.1, Exp.controlsAll_eq_nil xs hx.2]

lemma Code.Exp.controls_eq_nil_of_isPlace (d : Exp) (hd : d.isPlace = true) : d.controls = [] := by
  cases d with
  | temp t => rfl
  | mem y =>
    simp only [Exp.isPlace] at hd
    simp [Exp.controls, Exp.controls_eq_nil y hd]
  | eseq s y =>
    simp only [Exp.isPlace, Bool.and_eq_true] at hd
    simp [Exp.controls, Stm.controls_eq_nil s hd.1, Exp.controls_eq_nil_of_isPlace y hd.2]
  | _ => cases hd

lemma Code.Stm.controls_eq_nil (s : Stm) (hs : s.isStraight = true) : s.controls = [] := by
  cases s with
  | move d x =>
    simp only [Stm.isStraight, Bool.and_eq_true] at hs
    simp [Stm.controls, Exp.controls_eq_nil_of_isPlace d hs.1, Exp.controls_eq_nil x hs.2]
  | exp x =>
    simp only [Stm.isStraight] at hs
    simp [Stm.controls, Exp.controls_eq_nil x hs]
  | seq ss =>
    simp only [Stm.isStraight] at hs
    simp [Stm.controls, Stm.controlsAll_eq_nil ss hs]
  | cjump _ _ _ => cases hs
  | jump _ => cases hs
  | label _ => cases hs

lemma Code.Stm.controlsAll_eq_nil (ss : List Stm) (hs : Stm.areStraight ss = true) :
    Stm.controlsAll ss = [] := by
  cases ss with
  | nil => rfl
  | cons s ss =>
    simp only [Stm.areStraight, Bool.and_eq_true] at hs
    simp [Stm.controlsAll, Stm.controls_eq_nil s hs.1, Stm.controlsAll_eq_nil ss hs.2]

end

namespace Activation

variable {a : Activation} {code : List Stm}

def onward (a : Activation) (code : List Stm) : Routine :=
  let body := List.replicate a.pc (.exp (.const 0)) ++ code
  ⟨a.routine.frame, body.toArray, Routine.targetsOf body⟩

lemma frame_onward : (a.onward code).frame = a.routine.frame := rfl

lemma controlsOf_onward (hc : controlsOf code = []) :
    controlsOf (a.onward code).code.toList = [] := by
  have hpre : controlsOf (List.replicate a.pc (.exp (.const 0))) = [] :=
    List.filterMap_eq_nil_iff.mpr fun s hs => by rw [List.eq_of_mem_replicate hs]; rfl
  simp [onward, hpre, hc]

lemma resolved_onward (hc : controlsOf code = []) : (a.onward code).Resolved := by
  have h := controlsOf_onward (a := a) hc
  refine Routine.resolved_of_nodup ?_
  simp only [onward] at h
  rw [h]
  exact List.nodup_nil

lemma at_onward : (a.onward code).At a.pc code := by
  have h := Routine.at_toArray a.routine.frame
    (Routine.targetsOf (List.replicate a.pc (.exp (.const 0)) ++ code))
    (List.replicate a.pc (.exp (.const 0))) code
  rwa [List.length_replicate] at h

lemma rest_withRoutine_onward : (a.withRoutine (a.onward code)).rest = code := by
  simp [rest, withRoutine, onward]

lemma rest_of_pc_onward {c : Activation} (hr : c.routine = a.onward code)
    (hpc : c.pc = a.pc + code.length) : c.rest = [] := by
  simp [rest, hr, hpc, onward]

end Activation

section Straight

variable {calls : Calls} {s : Stm} {n : Temp} {a b : Activation} {m m' : Machine} {e : Fault}
variable (hs : s.isStraight = true) (ht : ∀ t ∈ s.temps, t.toNat < n.toNat)
variable (hw : n.toNat + s.saves < UInt32.size)

include hs ht hw

omit ht hw in
lemma controlsOf_flat_of_isStraight : controlsOf (s.flat n).code = [] := by
  rw [s.controlsOf_flat, s.controls_eq_nil hs]

lemma flat_meets (strict : Bool) (hready : strict = true → Ready s.names s.temps (a, m)) :
    ∃ resolved,
      (treeSim calls (a.onward (s.flat n).code) resolved n.toNat strict s.names s.temps).Meets
        (a.withRoutine (a.onward (s.flat n).code)) m
        (fun _ st c m' => c.rest = [] ∧ st.2 = m' ∧
          ∀ t : Temp, t.toNat < n.toNat → c.temps[t]? = st.1.temps[t]?)
        (fun _ _ _ _ => False) ((s.evaluate calls).observe strict (a, m)) := by
  have hc := controlsOf_flat_of_isStraight (n := n) hs
  refine ⟨Activation.resolved_onward hc, ?_⟩
  have hp : (treeSim calls (a.onward (s.flat n).code) (Activation.resolved_onward hc) n.toNat strict
      s.names s.temps).Performs s ((s.evaluate calls).observe strict) :=
    s.performs ht hs (List.Subset.refl _) (List.Subset.refl _)
  refine (hp n (a.withRoutine _) m (a, m) (Nat.le_refl _) hw rfl Activation.at_onward
    ⟨rfl, fun _ _ => rfl, hready⟩).mono ?_ fun _ _ _ _ _ _ h => h
  rintro _ st k c m' - ⟨harr, hst, htemps, -⟩
  exact ⟨Activation.rest_of_pc_onward harr.routine harr.pc, hst, htemps⟩

omit ht hw in
lemma controlsOf_withRoutine_onward :
    controlsOf (a.withRoutine (a.onward (s.flat n).code)).routine.code.toList = [] :=
  Activation.controlsOf_onward (controlsOf_flat_of_isStraight hs)

lemma performAll_flat_of_done (h : s.evaluate calls (a, m) = .done () (b, m')) :
    ∃ c, a.performAll calls (s.flat n).code m = .ok c m' ∧
      ∀ t : Temp, t.toNat < n.toNat → c.temps[t]? = b.temps[t]? := by
  obtain ⟨resolved, hm⟩ := flat_meets hs ht hw false fun h => nomatch h
  have ho : (s.evaluate calls).observe false (a, m) = .done () (b, m') := by
    simp [Action.observe, h]
  rw [ho] at hm
  obtain ⟨k, c, _, hreach, hrest, rfl, htemps⟩ := hm
  have hrun := Activation.performAll_of_reach hreach (controlsOf_withRoutine_onward hs)
  rw [hrest, Activation.rest_withRoutine_onward] at hrun
  obtain ⟨c', hc', htemps'⟩ := Activation.performAll_of_withRoutine_ok Activation.frame_onward hrun
  exact ⟨c', hc', fun t hb => htemps' ▸ htemps t hb⟩

lemma performAll_flat_of_fault (hready : Ready s.names s.temps (a, m))
    (h : s.evaluate calls (a, m) = .fault e (b, m')) :
    a.performAll calls (s.flat n).code m = .error e m' := by
  obtain ⟨resolved, hm⟩ := flat_meets hs ht hw true fun _ => hready
  rw [Action.observe_true, h] at hm
  obtain ⟨k, c, m₁, _, hreach, hf, rfl⟩ | ⟨_, _, _, _, h⟩ := hm
  · have hrun := Activation.performAll_of_reach hreach (controlsOf_withRoutine_onward hs)
    have hcode : controlsOf c.routine.code.toList = [] := by
      rw [hreach.routine]
      exact controlsOf_withRoutine_onward hs
    rw [Activation.performAll_of_faults hf hcode, Activation.rest_withRoutine_onward] at hrun
    exact Activation.performAll_of_withRoutine_error Activation.frame_onward hrun
  · exact h.elim

end Straight

/-- Linear code does what the tree does, with any meaning of calls: it ends with the same machine and
the same temporaries of the tree. It also fails as the tree does, if names are bound and temporaries
are set at the start. -/
theorem linearize_keeps_meaning (calls : Calls) (s : Stm) (n : Temp) (hs : s.isStraight = true)
    (ht : ∀ t ∈ s.temps, t.toNat < n.toNat) (hw : n.toNat + s.saves < UInt32.size)
    (a : Activation) (m : Machine) :
    (∀ b m', s.evaluate calls (a, m) = .done () (b, m') →
      ∃ c, a.performAll calls (s.linearize n).1.statements m = .ok c m' ∧
        ∀ t : Temp, t.toNat < n.toNat → c.temps[t]? = b.temps[t]?) ∧
    ((∀ l ∈ s.names, ∃ w, m.nameValue l = .ok w) → (∀ t ∈ s.temps, ∃ w, a.temps[t]? = some w) →
      ∀ e b m', s.evaluate calls (a, m) = .fault e (b, m') →
        a.performAll calls (s.linearize n).1.statements m = .error e m') :=
  ⟨fun _ _ h => performAll_flat_of_done hs ht hw h,
    fun hnames htemps _ _ _ h => performAll_flat_of_fault hs ht hw ⟨hnames, htemps⟩ h⟩

def echo : Calls where
  run _ args m := .ok (args.headD 0) m
  steady h _ := by cases h; rfl

def overwrite : Stm :=
  .move (.mem (.temp (.ofNat 0)))
    (.binop .add (.temp (.ofNat 0))
      (.eseq (.move (.temp (.ofNat 0)) (.const 32)) (.call (.named "f") [.temp (.ofNat 0)])))

def firstTemp : Activation where
  routine := ⟨{ label := .named "main", level := 1 }, #[], ∅⟩
  temps := (∅ : Std.TreeMap Temp Word).insert (.ofNat 0) 8
  destination := .discard

def blank (size : Nat) : Machine := ⟨.new size, 0, 0, .ofSeed 0, none⟩

theorem linearize_keeps_meaning_overwrite :
    (∃ b m' c, overwrite.evaluate echo (firstTemp, blank 16) = .done () (b, m') ∧
      firstTemp.performAll echo (overwrite.linearize (.ofNat 1)).1.statements (blank 16) = .ok c m' ∧
      c.temps[(.ofNat 0 : Temp)]? = b.temps[(.ofNat 0 : Temp)]?) ∧
    ∃ b m', overwrite.evaluate echo (firstTemp, blank 0) = .fault (.addressOutOfBounds 8) (b, m') ∧
      firstTemp.performAll echo (overwrite.linearize (.ofNat 1)).1.statements (blank 0) =
        .error (.addressOutOfBounds 8) m' := by
  have h := linearize_keeps_meaning echo overwrite (.ofNat 1) (by decide) (by decide) (by decide)
    firstTemp
  constructor
  · obtain ⟨c, hc, ht⟩ := (h (blank 16)).1 _ _ rfl
    exact ⟨_, _, c, rfl, hc, ht (.ofNat 0) (by decide)⟩
  · have hn : ∀ l ∈ overwrite.names, ∃ w, (blank 0).nameValue l = .ok w := fun _ hl => nomatch hl
    have ht : ∀ t ∈ overwrite.temps, ∃ w, firstTemp.temps[t]? = some w := by
      intro t ht
      obtain rfl : t = .ofNat 0 := by simpa [overwrite, Stm.temps, Exp.temps, Exp.tempsAll] using ht
      exact ⟨8, rfl⟩
    exact ⟨_, _, rfl, (h (blank 0)).2 hn ht _ _ _ rfl⟩

end BlockLang
