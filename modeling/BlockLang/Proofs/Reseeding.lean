import BlockLang.Proofs.Compilation
import BlockLang.Proofs.StepCases

namespace BlockLang

open Code

def Machine.withGenerator (m : Machine) (g : Generator) : Machine := { m with generator := g }

namespace Exec

variable {α β : Type} {x : Exec α} {f : α → Exec β} {m m' : Machine}

def withGenerator (g : Generator) : EStateM.Result Fault Machine α → EStateM.Result Fault Machine α
  | .ok a m => .ok a (m.withGenerator g)
  | .error e m => .error e (m.withGenerator g)

def Ignores (x : Exec α) (m : Machine) : Prop :=
  ∀ g, x (m.withGenerator g) = withGenerator g (x m)

def Overwrites (x : Exec α) (m : Machine) : Prop :=
  ∀ g, x (m.withGenerator g) = x m

lemma ignores_pure (a : α) : Ignores (pure a) m := fun _ => rfl

lemma ignores_throw (e : Fault) : Ignores (throw e : Exec α) m := fun _ => rfl

lemma ignores_throw_bind (e : Fault) : Ignores (throw e >>= f) m := fun _ => rfl

lemma ignores_modify {f : Machine → Machine}
    (h : ∀ g, f (m.withGenerator g) = (f m).withGenerator g) : Ignores (modify f) m :=
  fun g => congrArg (EStateM.Result.ok ()) (h g)

lemma ignores_read {f : Machine → Except Fault α} (h : ∀ g, f (m.withGenerator g) = f m) :
    Ignores (Machine.read f) m := by
  intro g
  unfold Machine.read
  rw [h g]
  cases f m <;> rfl

lemma Ignores.bind (hx : x.Ignores m) (hf : ∀ a m', x m = .ok a m' → (f a).Ignores m') :
    (x >>= f).Ignores m := by
  intro g
  simp only [Bind.bind, EStateM.bind, hx g]
  cases h : x m with
  | ok a m' => exact hf a m' h g
  | error e m' => rfl

lemma ignores_get_bind {f : Machine → Exec β} (h : ∀ g, f (m.withGenerator g) = f m)
    (hf : (f m).Ignores m) : Ignores (get >>= f) m := by
  intro g
  change f (m.withGenerator g) (m.withGenerator g) = _
  rw [h g]
  exact hf g

lemma Overwrites.bind (hx : x.Overwrites m) : (x >>= f).Overwrites m := by
  intro g
  simp only [Bind.bind, EStateM.bind, hx g]

lemma Ignores.bind_overwrites {a : α} (hx : x.Ignores m) (h : x m = .ok a m')
    (hf : (f a).Overwrites m') : (x >>= f).Overwrites m := by
  intro g
  simp only [Bind.bind, EStateM.bind, hx g, h]
  exact hf g

end Exec

open Exec

namespace Machine

lemma ignores_store (address : Int) (w : Word) (m : Machine) : (store address w).Ignores m := by
  intro g
  rw [store_eq, store_eq]
  by_cases h : m.memory.holds address 8
  · have h' : (m.withGenerator g).memory.holds address 8 = true := h
    rw [if_pos h, if_pos h']
    rfl
  · have h' : ¬(m.withGenerator g).memory.holds address 8 = true := h
    rw [if_neg h, if_neg h']
    rfl

lemma ignores_storeAll (ws : List Word) (address : Int) (m : Machine) :
    (storeAll address ws).Ignores m := by
  induction ws generalizing address m with
  | nil => exact ignores_pure ()
  | cons w ws ih => exact (ignores_store address w m).bind fun _ m' _ => ih (address + wordSize) m'

lemma ignores_print (line : String) (m : Machine) : (print line).Ignores m := by
  intro g
  obtain ⟨memory, fp, sp, generator, console⟩ := m
  cases console with
  | none => rfl
  | some c =>
    unfold print
    dsimp only [withGenerator]
    split <;> rfl

end Machine

namespace Activation

variable (a : Activation) (m : Machine) (g : Generator)

@[simp] lemma eval_withGenerator (x : Exp) : a.eval (m.withGenerator g) x = a.eval m x := by
  cases x with
  | mem x =>
    simp only [eval, eval_withGenerator x]
    rfl
  | binop op x y => simp only [eval, eval_withGenerator x, eval_withGenerator y]
  | _ => rfl

@[simp] lemma evalAll_withGenerator (xs : List Exp) :
    a.evalAll (m.withGenerator g) xs = a.evalAll m xs := by
  induction xs with
  | nil => rfl
  | cons x xs ih => simp only [evalAll, eval_withGenerator, ih]

@[simp] lemma place_withGenerator (x : Exp) : a.place (m.withGenerator g) x = a.place m x := by
  cases x with
  | mem x => simp only [place, eval_withGenerator]
  | _ => rfl

lemma ignores_write (w : Word) (d : Destination) : (a.write w d).Ignores m := by
  cases d with
  | temp t => exact ignores_pure _
  | discard => exact ignores_pure _
  | memory address =>
    exact (Machine.ignores_store address w m).bind fun _ _ _ => ignores_pure _

end Activation

namespace Routine

variable (r : Routine) (m : Machine)

lemma ignores_enter (args : List Word) (d : Destination) : (r.enter args d).Ignores m := by
  unfold enter
  refine ignores_get_bind (fun _ => rfl) ((Machine.ignores_storeAll args _ _).bind fun _ m₁ _ => ?_)
  refine (ignores_modify fun _ => rfl).bind fun _ m₂ _ => ignores_get_bind (fun _ => rfl) ?_
  split
  · exact ignores_throw_bind _
  · exact ignores_pure _

lemma ignores_leave : r.leave.Ignores m := by
  unfold leave
  refine (ignores_modify fun _ => rfl).bind fun _ m₁ _ => ?_
  refine (ignores_read fun _ => rfl).bind fun _ m₂ _ => ?_
  exact (ignores_modify fun _ => rfl).bind fun _ m₃ _ => ignores_read fun _ => rfl

end Routine

lemma Intrinsic.ignores_exec {i : Intrinsic} {ws : List Word} {m : Machine}
    (h : ∀ r m', i.exec ws m = .ok r m' → i ≠ .randInt ∧ i ≠ .seed) : (i.exec ws).Ignores m := by
  have hprint : ∀ (line : String) (m : Machine),
      Ignores (do Machine.print line; return some 0 : Exec (Option Word)) m := fun line m =>
    (Machine.ignores_print line m).bind fun _ _ _ => ignores_pure _
  revert h
  fun_cases Intrinsic.exec i ws with
  | case1 w => exact fun _ => hprint _ m
  | case2 w => exact fun _ => (ignores_read fun _ => rfl).bind fun _ m' _ => hprint _ m'
  | case3 w => exact fun _ => hprint _ m
  | case4 min max =>
    intro h g
    dsimp only at h ⊢
    -- an empty range is a fault, and nothing is drawn
    by_cases hlt : min < max
    · rw [if_pos hlt] at h
      exact ((h _ _ rfl).1 rfl).elim
    · rw [if_neg hlt, if_neg hlt]
      rfl
  | case5 w => exact fun h => ((h _ _ rfl).2 rfl).elim
  | case6 => exact fun _ => ignores_throw _

lemma Intrinsic.overwrites_exec_seed {ws : List Word} {r : Option Word} {m m' : Machine}
    (h : Intrinsic.seed.exec ws m = .ok r m') : (Intrinsic.seed.exec ws).Overwrites m := by
  match ws with
  | [w] => exact fun _ => rfl
  | [] => cases h
  | _ :: _ :: _ => cases h

namespace Activation

def calls? (a : Activation) (image : Image) (m : Machine) (f : Label) (args : List Exp) :
    Option Intrinsic :=
  match image.routines[f]?, Intrinsic.ofLabel? f, a.evalAll m args with
  | none, some i, .ok values =>
    match i.exec values.tail m with
    | .ok _ _ => some i
    | .error _ _ => none
  | _, _, _ => none

def executes? (a : Activation) (image : Image) (m : Machine) : Option Intrinsic :=
  match a.routine.code[a.pc]? with
  | some (.exp (.call f args)) => a.calls? image m f args
  | some (.move dst (.call f args)) =>
    match a.place m dst with
    | .ok _ => a.calls? image m f args
    | .error _ => none
  | _ => none

variable {a : Activation} {image : Image} {m : Machine} {i : Intrinsic}

lemma calls?_eq_some {f : Label} {args : List Exp} :
    a.calls? image m f args = some i ↔
      image.routines[f]? = none ∧ Intrinsic.ofLabel? f = some i ∧
        ∃ values r m', a.evalAll m args = .ok values ∧ i.exec values.tail m = .ok r m' := by
  constructor
  · intro h
    unfold calls? at h
    split at h
    · rename_i j values hr hj hv
      split at h
      · rename_i r m' hx
        obtain rfl := Option.some.inj h
        exact ⟨hr, hj, values, r, m', hv, hx⟩
      · cases h
    · cases h
  · rintro ⟨hr, hi, values, r, m', hv, hx⟩
    simp [calls?, hr, hi, hv, hx]

lemma ignores_call {f : Label} {args : List Exp} (d : Destination)
    (h : ∀ i, a.calls? image m f args = some i → i ≠ .randInt ∧ i ≠ .seed) :
    (a.call image f args d).Ignores m := by
  unfold call
  refine (ignores_read fun g => a.evalAll_withGenerator m g args).bind fun values m' hread => ?_
  obtain ⟨hv, rfl⟩ := Machine.read_ok_iff.mp hread
  cases hr : image.routines[f]? with
  | some r => exact ignores_pure _
  | none =>
    cases hi : Intrinsic.ofLabel? f with
    | none => exact ignores_throw _
    | some i =>
      refine (Intrinsic.ignores_exec fun r m' hx => ?_).bind fun r m' _ => ?_
      · exact h i (calls?_eq_some.mpr ⟨hr, hi, values, r, m', hv, hx⟩)
      · cases r with
        | none => exact ignores_pure _
        | some w => exact (a.advance.ignores_write m' w d).bind fun _ _ _ => ignores_pure _

lemma overwrites_call {f : Label} {args : List Exp} (d : Destination)
    (h : a.calls? image m f args = some .seed) : (a.call image f args d).Overwrites m := by
  obtain ⟨hr, hi, values, r, m', hv, hx⟩ := calls?_eq_some.mp h
  have hread : (Machine.read (a.evalAll · args)).Ignores m :=
    ignores_read fun g => a.evalAll_withGenerator m g args
  refine hread.bind_overwrites (Machine.read_ok hv) ?_
  rw [hr, hi]
  exact (Intrinsic.overwrites_exec_seed hx).bind

lemma executes?_of_invokes {f : Label} {args : List Exp} {d : Destination}
    (h : a.Invokes m f args d) : a.executes? image m = a.calls? image m f args := by
  rcases h with ⟨hs, -⟩ | ⟨dst, hs, hd⟩
  · simp [executes?, hs]
  · simp [executes?, hs, hd]

lemma ignores_goto (l : Label) :
    Ignores (do return Step.next (← Machine.read fun _ => a.goto l)) m :=
  (ignores_read fun _ => rfl).bind fun _ _ _ => ignores_pure _

lemma ignores_step (h : ∀ i, a.executes? image m = some i → i ≠ .randInt ∧ i ≠ .seed) :
    (a.step image).Ignores m := by
  cases hs : a.routine.code[a.pc]? with
  | none =>
    rw [step_end hs]
    exact ignores_pure _
  | some s =>
    cases s with
    | move dst src =>
      have hplace : (Machine.read (a.place · dst)).Ignores m :=
        ignores_read fun g => a.place_withGenerator m g dst
      cases hc : src.isCall with
      | false =>
        rw [step_move hs hc]
        refine hplace.bind fun d m₁ _ =>
          (ignores_read fun g => a.eval_withGenerator m₁ g src).bind fun w m₂ _ => ?_
        exact (a.advance.ignores_write m₂ w d).bind fun _ _ _ => ignores_pure _
      | true =>
        cases src with
        | call f args =>
          rw [step_move_call hs]
          refine hplace.bind fun d m₁ hread => ?_
          obtain ⟨hd, rfl⟩ := Machine.read_ok_iff.mp hread
          rw [executes?_of_invokes (.inr ⟨dst, hs, hd⟩)] at h
          exact ignores_call d h
        | _ => cases hc
    | exp x =>
      cases hc : x.isCall with
      | false =>
        rw [step_exp hs hc]
        exact (ignores_read fun g => a.eval_withGenerator m g x).bind fun _ _ _ => ignores_pure _
      | true =>
        cases x with
        | call f args =>
          rw [step_exp_call hs]
          rw [executes?_of_invokes (.inl ⟨hs, rfl⟩)] at h
          exact ignores_call .discard h
        | _ => cases hc
    | seq ss =>
      rw [step_seq hs]
      exact ignores_throw _
    | cjump c l l' =>
      rw [step_cjump hs]
      refine (ignores_read fun g => a.eval_withGenerator m g c).bind fun w m₁ _ => ?_
      split
      · exact ignores_goto l
      · split
        · exact ignores_goto l'
        · exact ignores_throw _
    | jump l =>
      rw [step_jump hs]
      exact ignores_goto l
    | label l =>
      rw [step_label hs]
      exact ignores_pure _

lemma overwrites_step (h : a.executes? image m = some .seed) : (a.step image).Overwrites m := by
  unfold executes? at h
  split at h
  · rename_i f args hs
    rw [step_exp_call hs]
    exact overwrites_call .discard h
  · rename_i dst f args hs
    have hplace : (Machine.read (a.place · dst)).Ignores m :=
      ignores_read fun g => a.place_withGenerator m g dst
    split at h
    · rename_i d hd
      rw [step_move_call hs]
      exact hplace.bind_overwrites (Machine.read_ok hd) (overwrites_call d h)
    · cases h
  · cases h

end Activation

/-- Every random number is drawn after some seed has been set. -/
def SeedsFirst (is : List Intrinsic) : Prop :=
  ∀ before after, is = before ++ .randInt :: after → .seed ∈ before

namespace SeedsFirst

variable {i : Intrinsic} {is js : List Intrinsic}

lemma nil : SeedsFirst [] := by
  intro before after h
  cases before <;> cases h

lemma of_append_left (h : SeedsFirst (is ++ js)) : SeedsFirst is := by
  intro before after he
  refine h before (after ++ js) ?_
  rw [he, List.append_assoc, List.cons_append]

lemma of_append_right (h : SeedsFirst (is ++ js)) (hs : .seed ∉ is) : SeedsFirst js := by
  intro before after he
  have hmem := h (is ++ before) after (by rw [he, List.append_assoc])
  exact (List.mem_append.mp hmem).resolve_left hs

lemma cons_iff : SeedsFirst (i :: is) ↔ i = .seed ∨ i ≠ .randInt ∧ SeedsFirst is := by
  constructor
  · intro h
    by_cases hs : i = .seed
    · exact .inl hs
    · have hsplit : SeedsFirst ([i] ++ is) := h
      refine .inr ⟨fun hr => ?_, hsplit.of_append_right fun hm => ?_⟩
      · cases h [] is (by rw [hr, List.nil_append])
      · exact hs (List.mem_singleton.mp hm).symm
  · rintro h before after he
    cases before with
    | nil =>
      obtain ⟨rfl, -⟩ := List.cons.inj he
      rcases h with h | h
      · cases h
      · exact (h.1 rfl).elim
    | cons b before =>
      obtain ⟨rfl, hrest⟩ := List.cons.inj he
      rcases h with rfl | h
      · exact List.mem_cons_self
      · exact List.mem_cons_of_mem _ (h.2 before after hrest)

instance decidable : (is : List Intrinsic) → Decidable (SeedsFirst is)
  | [] => .isTrue nil
  | _ :: is =>
    have := decidable is
    decidable_of_iff _ cons_iff.symm

end SeedsFirst

namespace Thread

/-- The intrinsics that come to a result in up to `fuel` steps, from first to last. A random number that
has to be drawn again counts again. -/
def executed (image : Image) : (fuel : Nat) → Thread → Machine → List Intrinsic
  | 0, _, _ => []
  | fuel + 1, t, m =>
    (t.current.executes? image m).toList ++
      match t.advance image m with
      | .ok (.running t) m => executed image fuel t m
      | .ok (.finished _) _ | .error _ _ => []

variable {image : Image} {t : Thread} {m : Machine}

lemma ignores_advance (h : ∀ i, t.current.executes? image m = some i → i ≠ .randInt ∧ i ≠ .seed) :
    (t.advance image).Ignores m := by
  unfold advance
  refine (Activation.ignores_step h).bind fun out m' _ => ?_
  cases out with
  | next a => exact ignores_pure _
  | call r args d caller => exact (r.ignores_enter m' args d).bind fun _ _ _ => ignores_pure _
  | ret =>
    refine (t.current.routine.ignores_leave m').bind fun w m'' _ => ?_
    cases t.callers with
    | nil => exact ignores_pure _
    | cons caller callers =>
      exact (caller.ignores_write m'' w _).bind fun _ _ _ => ignores_pure _

lemma overwrites_advance (h : t.current.executes? image m = some .seed) :
    (t.advance image).Overwrites m :=
  (Activation.overwrites_step h).bind

/-- Up to the first seed both runs do the same with their own generator; from then on they are one. -/
lemma runFor_withGenerator (g : Generator) {fuel : Nat}
    (h : SeedsFirst (t.executed image fuel m)) :
    runFor image fuel t (m.withGenerator g) =
      if .seed ∈ t.executed image fuel m then runFor image fuel t m
      else ((runFor image fuel t m).1, (runFor image fuel t m).2.withGenerator g) := by
  induction fuel generalizing t m with
  | zero => rfl
  | succ fuel ih =>
    -- A seed makes the two machines equal. Before the first one a step cannot draw, so both generators
    -- stay as they are.
    by_cases hs : t.current.executes? image m = some .seed
    · have hmem : .seed ∈ t.executed image (fuel + 1) m := by simp [executed, hs]
      rw [if_pos hmem, runFor, overwrites_advance hs g, runFor]
    · have hfirst : .seed ∉ (t.current.executes? image m).toList := by simpa using hs
      have hi : ∀ i, t.current.executes? image m = some i → i ≠ .randInt ∧ i ≠ .seed := by
        rintro i he
        refine ⟨?_, ?_⟩
        · rintro rfl
          cases h [] _ (by rw [executed, he]; rfl)
        · rintro rfl
          exact hs he
      rw [executed] at h ⊢
      rw [runFor, ignores_advance hi g, runFor]
      cases ha : t.advance image m with
      | error e m' => simp [Exec.withGenerator, hs]
      | ok p m' =>
        cases p with
        | finished w => simp [Exec.withGenerator, hs]
        | running t' =>
          rw [ha] at h
          simpa [Exec.withGenerator, hs] using ih (h.of_append_right hfirst)

lemma executed_prefix {k fuel : Nat} (h : k ≤ fuel) :
    t.executed image k m <+: t.executed image fuel m := by
  induction k generalizing fuel t m with
  | zero => exact List.nil_prefix
  | succ k ih =>
    obtain ⟨fuel, rfl⟩ := Nat.exists_eq_add_of_lt h
    rw [executed, executed]
    refine (List.prefix_append_right_inj _).mpr ?_
    split
    · exact ih (by omega)
    · exact List.prefix_rfl
    · exact List.prefix_rfl

end Thread

namespace Image

variable {image : Image} {m : Machine}

def executed (image : Image) (fuel : Nat) (m : Machine) : List Intrinsic :=
  match image.start m with
  | .ok t m => t.executed image fuel m
  | .error _ _ => []

lemma ignores_start (image : Image) (m : Machine) : image.start.Ignores m := by
  unfold start
  split
  · exact ignores_throw _
  · rename_i r _
    split
    · exact ignores_throw_bind _
    · refine ignores_get_bind (fun _ => rfl) ((Machine.ignores_store _ _ m).bind fun _ m' _ => ?_)
      exact (r.ignores_enter m' [0] .discard).bind fun _ _ _ => ignores_pure _

lemma run_withGenerator (g : Generator) {fuel : Nat} (h : SeedsFirst (image.executed fuel m)) :
    image.run fuel (m.withGenerator g) =
      if .seed ∈ image.executed fuel m then image.run fuel m
      else ((image.run fuel m).1, (image.run fuel m).2.withGenerator g) := by
  unfold run executed at *
  rw [image.ignores_start m g]
  cases hs : image.start m with
  | error e m' => rfl
  | ok t m' =>
    rw [hs] at h
    exact Thread.runFor_withGenerator g h

lemma executed_prefix (image : Image) (m : Machine) {k fuel : Nat} (h : k ≤ fuel) :
    image.executed k m <+: image.executed fuel m := by
  unfold executed
  split
  · exact Thread.executed_prefix h
  · exact List.prefix_rfl

lemma load_withGenerator (program : Code.Program) (setup : Setup) (g : Generator) :
    load program { setup with generator := g } =
      (load program setup).map fun state => (state.1, state.2.withGenerator g) := by
  unfold load
  cases program.chunks.foldlM loadChunk (∅, Memory.new setup.memorySize) <;> rfl

end Image

/-- Two setups that differ only in the generator load a program alike. As long as every random number is
drawn after a seed has been set, the two runs cannot be told apart: after each step the running
functions, memory, registers and output are the same, and so is the generator if a seed has been set. -/
theorem reseeding_hides_generator (program : Code.Program) (setup : Setup) (g : Generator) :
    (∀ e, Image.load program setup = .error e →
      Image.load program { setup with generator := g } = .error e) ∧
    ∀ image m, Image.load program setup = .ok (image, m) →
      ∃ m', Image.load program { setup with generator := g } = .ok (image, m') ∧
        ∀ fuel, SeedsFirst (image.executed fuel m) → ∀ k ≤ fuel,
          (image.run k m').1 = (image.run k m).1 ∧
          (image.run k m').2.memory = (image.run k m).2.memory ∧
          (image.run k m').2.fp = (image.run k m).2.fp ∧
          (image.run k m').2.sp = (image.run k m).2.sp ∧
          (image.run k m').2.console = (image.run k m).2.console ∧
          (.seed ∈ image.executed k m →
            (image.run k m').2.generator = (image.run k m).2.generator) := by
  rw [Image.load_withGenerator program setup g]
  refine ⟨fun e h => by rw [h]; rfl, fun image m h => ⟨m.withGenerator g, by rw [h]; rfl, ?_⟩⟩
  intro fuel hseeds k hk
  obtain ⟨rest, hrest⟩ := image.executed_prefix m hk
  rw [Image.run_withGenerator g (SeedsFirst.of_append_left (hrest ▸ hseeds))]
  split
  · exact ⟨rfl, rfl, rfl, rfl, rfl, fun _ => rfl⟩
  · rename_i hs
    exact ⟨rfl, rfl, rfl, rfl, rfl, fun h => (hs h).elim⟩

def seededRoll : Code.Program where
  chunks := [.code { label := .named "main", level := 1 } (.seq
    [.exp (.call Intrinsic.printInt.label [.const 0, .const 7]),
      .exp (.call Intrinsic.seed.label [.const 0, .const 42]),
      .move (.temp (.ofNat 0)) (.call Intrinsic.randInt.label [.const 0, .const 1, .const 1000]),
      .exp (.call Intrinsic.printInt.label [.const 0, .temp (.ofNat 0)]),
      .move (.mem (.name .framePointer)) (.temp (.ofNat 0))])]
  entry := .named "main"

theorem reseeding_hides_generator_roll :
    ∃ image m m', Image.load seededRoll ⟨64, .ofSeed 1, some {}⟩ = .ok (image, m) ∧
      Image.load seededRoll ⟨64, .ofSeed 2, some {}⟩ = .ok (image, m') ∧
      image.executed 6 m = [.printInt, .seed, .randInt, .printInt] ∧
      (image.run 6 m).1.isValue 527 = true ∧ (image.run 6 m').1 = (image.run 6 m).1 ∧
      (image.run 6 m').2.console = (image.run 6 m).2.console ∧
      (image.run 6 m').2.generator = (image.run 6 m).2.generator := by
  obtain ⟨⟨image, m⟩, hl, h⟩ : ∃ state, Image.load seededRoll ⟨64, .ofSeed 1, some {}⟩ = .ok state ∧
      (decide (state.1.executed 6 state.2 = [.printInt, .seed, .randInt, .printInt]) &&
        (state.1.run 6 state.2).1.isValue 527) = true :=
    exists_ok_of_any (by decide +kernel)
  obtain ⟨hexecuted, hvalue⟩ := Bool.and_eq_true_iff.mp h
  have hexecuted := of_decide_eq_true hexecuted
  obtain ⟨m', hl', hrun⟩ :=
    (reseeding_hides_generator seededRoll ⟨64, .ofSeed 1, some {}⟩ (.ofSeed 2)).2 image m hl
  obtain ⟨hsame, -, -, -, hconsole, hgenerator⟩ :=
    hrun 6 (by rw [hexecuted]; decide) 6 (Nat.le_refl 6)
  exact ⟨image, m, m', hl, hl', hexecuted, hvalue, hsame, hconsole,
    hgenerator (by rw [hexecuted]; decide)⟩

end BlockLang
