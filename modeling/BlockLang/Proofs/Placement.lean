import BlockLang.Proofs.Branching
import BlockLang.Proofs.Intrinsics
import BlockLang.Proofs.LoweringCases
import BlockLang.Proofs.Semantics
import BlockLang.Proofs.Words

namespace BlockLang

open Source Code Lowering

structure Placement (scope : Scope) (vars : List NodeId) where
  fp : Int
  labels : Std.TreeMap Label Int
  size : Int
  address : NodeId → Word
  eval_address : ∀ d ∈ vars, ∀ access, scope.accesses[d]? = some access →
    ∀ (a : Activation) (m : Machine), m.fp = fp → m.memory.labels = labels →
      a.eval m (addressOf 1 access) = .ok (address d)
  held : ∀ d ∈ vars, 0 ≤ (address d).toInt ∧ (address d).toInt + 8 ≤ size
  clear : ∀ d ∈ vars, ∀ d' ∈ vars, d ≠ d' → Clear (address d).toInt (address d').toInt

namespace Placement

variable {scope : Scope} {vars : List NodeId} (P : Placement scope vars)

structure Holds (s : World) (m : Machine) : Prop where
  fp : m.fp = P.fp
  labels : m.memory.labels = P.labels
  size : m.memory.size = P.size
  console : m.console = s.console
  cells : ∀ d ∈ vars, m.memory.load (P.address d).toInt = .ok (s.cells d)

def sim (routine : Routine) (resolved : routine.Resolved) (fuel bound : Nat) : Sim World where
  calls := intrinsicCalls
  routine
  resolved
  fuel
  bound
  Rel s _ m := P.Holds s m
  Last s m := m.console = s.console
  last_of_rel h := h.console
  rel_congr h _ := h

variable {P} {routine : Routine} {resolved : routine.Resolved} {fuel bound : Nat}
variable {d : NodeId} {access : Access} {s : World} {m : Machine}

lemma changes_store (h : P.Holds s m) (hd : d ∈ vars) (w : Word) (a : Activation) :
    (P.sim routine resolved fuel bound).Changes a (Machine.store (P.address d).toInt w m)
      (World.set d w s) := by
  obtain ⟨h0, hs⟩ := P.held d hd
  have hm : m.memory.holds (P.address d).toInt 8 = true :=
    Memory.holds_iff.mpr ⟨h0, by rw [h.size]; omega⟩
  have hcells : ∀ d' ∈ vars, (m.memory.write (P.address d).toInt w.toBytes).load
      (P.address d').toInt = .ok (if d' = d then w else s.cells d') := by
    intro d' hd'
    by_cases he : d' = d
    · subst he
      rw [if_pos rfl, Memory.load_write hm]
    · rw [if_neg he, Memory.load_write_of_clear h0 (P.clear d hd d' hd' (Ne.symm he))]
      exact h.cells d' hd'
  have hlabels := Memory.labels_write m.memory (P.address d).toInt w.toBytes
  have hsize := Memory.size_write m.memory (P.address d).toInt w.toBytes
  have hstore := Machine.store_of_holds (w := w) hm
  generalize m.memory.write (P.address d).toInt w.toBytes = memory at *
  exact ⟨_, hstore, h.fp, hlabels.trans h.labels, hsize.trans h.size, h.console, hcells⟩

lemma changes_print (h : P.Holds s m) (line : String) (a : Activation) :
    (P.sim routine resolved fuel bound).Changes a (Machine.print line m) (World.print line s) := by
  obtain ⟨memory, fp, sp, generator, console⟩ := m
  obtain ⟨cells, console'⟩ := s
  obtain rfl : console = console' := h.console
  cases console with
  | none => exact ⟨_, rfl, h⟩
  | some c =>
    unfold Machine.print World.print
    dsimp only
    obtain ⟨refused, c'⟩ := c.write (line ++ "\n").toUTF8.data
    cases refused with
    | none => exact ⟨_, rfl, h.fp, h.labels, h.size, rfl, h.cells⟩
    | some reason => exact ⟨_, rfl, rfl⟩

lemma changes_call {f : String} {i : Intrinsic} {w : Word} (h : P.Holds s m)
    (hf : Intrinsic.ofName? f = some i) (hi : i = .printInt ∨ i = .printLog) (a : Activation) :
    (P.sim routine resolved fuel bound).Changes a (Intrinsic.call i.label [0, w] m)
      (World.call f [w] s) := by
  have hprint : ∀ line, (P.sim routine resolved fuel bound).Changes a
      ((do Machine.print line; return 0 : Exec Word) m)
      ((do World.print line; return 0 : Action World Word) s) := by
    intro line
    have hp : (P.sim routine resolved fuel bound).Changes a (Machine.print line m)
        (World.print line s) := changes_print h line a
    cases hw : World.print line s with
    | done u s' =>
      rw [hw] at hp
      obtain ⟨m', hm, hs'⟩ := hp
      rw [Action.bind_done hw]
      exact ⟨m', Exec.bind_ok.mpr ⟨u, m', hm, rfl⟩, hs'⟩
    | fault e s' =>
      rw [hw] at hp
      obtain ⟨m', hm, hs'⟩ := hp
      rw [Action.bind_fault hw]
      exact ⟨m', by simp [bind, EStateM.bind, hm], hs'⟩
    | unfinished =>
      rw [hw] at hp
      rw [Action.bind_unfinished hw]
      exact hp
  rcases hi with rfl | rfl
  · have hw : World.call f [w] = (do World.print (toString w.toInt); return 0) := by
      simp [World.call, printed?, hf]
    have hm : Intrinsic.call Intrinsic.printInt.label [0, w] =
        (do Machine.print (toString w.toInt); return 0) := Intrinsic.call_print rfl
    rw [hw, hm]
    exact hprint _
  · have hw : World.call f [w] =
        (do World.print (if w ≠ 0 then "true" else "false"); return 0) := by
      simp [World.call, printed?, hf]
    have hm : Intrinsic.call Intrinsic.printLog.label [0, w] =
        (do Machine.print (if w ≠ 0 then "true" else "false"); return 0) :=
      Intrinsic.call_print rfl
    rw [hw, hm]
    exact hprint _

lemma computes_get (hd : d ∈ vars) (ha : scope.accesses[d]? = some access) :
    (P.sim routine resolved fuel bound).Computes (.mem (addressOf 1 access)) (World.get d) := by
  refine .of_isPure (isPure_addressOf 1 access) fun a m s _ (hrel : P.Holds s m) => ⟨hrel, ?_⟩
  have hload := hrel.cells d hd
  simp only [Activation.eval, P.eval_address d hd access ha a m hrel.fp hrel.labels, bind,
    Except.bind, hload]

lemma performs_set {y : Exp} {f : Action World Word} (hd : d ∈ vars)
    (ha : scope.accesses[d]? = some access)
    (hy : (P.sim routine resolved fuel bound).Computes y f) :
    (P.sim routine resolved fuel bound).Performs (.move (.mem (addressOf 1 access)) y)
      (do World.set d (← f)) := by
  have hx : (P.sim routine resolved fuel bound).Computes (addressOf 1 access)
      (pure (P.address d)) := by
    refine .of_isPure (isPure_addressOf 1 access) fun a m s _ (hrel : P.Holds s m) => ?_
    exact ⟨hrel, P.eval_address d hd access ha a m hrel.fp hrel.labels⟩
  have hput : ∀ a m s u w, (∃ s₀ s₁, (pure (P.address d) : Action World Word) s₀ = .done u s₁) →
      P.Holds s m → (P.sim routine resolved fuel bound).Changes a (Machine.store u.toInt w m)
        (World.set d w s) := by
    rintro a m s u w ⟨s₀, s₁, hu⟩ hrel
    obtain rfl : P.address d = u := (Ending.done.inj hu).1
    exact changes_store hrel hd w a
  simpa using Sim.Performs.move_mem hx hy hput

end Placement

end BlockLang
