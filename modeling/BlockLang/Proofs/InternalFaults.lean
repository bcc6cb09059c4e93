import BlockLang.Proofs.Loading
import BlockLang.Proofs.LoweredFlow
import BlockLang.Proofs.ThreadSteps
import BlockLang.Proofs.UniqueLabels
import BlockLang.Proofs.Words
import BlockLang.Source.Sample

namespace BlockLang

open Source Code

/-- Faults that tell of code that no program should become. -/
def Fault.isInternal : Fault → Bool
  | notLinearized _ | invalidDestination _ | unknownLabel _ | notAFunction _ | uninitializedTemp _ =>
    true
  | divisionByZero | invalidCondition _ | argumentCount _ _ _ | addressOutOfBounds _ | stackOverflow
  | emptyRange _ _ | entryParameters _ | output _ => false

def Machine.Binds (B : Bindings) (m : Machine) : Prop :=
  ∀ l ∈ B.names, l = .framePointer ∨ l = .stackPointer ∨ ∃ a, m.memory.labels[l]? = some a

variable {B : Bindings}

lemma Machine.Binds.of_labels {m m' : Machine} (h : m.Binds B)
    (hl : m'.memory.labels = m.memory.labels) : m'.Binds B := by
  intro l hm
  rw [hl]
  exact h l hm

def Result.Meets {α : Type} (B : Bindings) (Q : α → Prop) : EStateM.Result Fault Machine α → Prop
  | .ok a m => m.Binds B ∧ Q a
  | .error e m => m.Binds B ∧ e.isInternal = false

def Exec.Meets {α : Type} (B : Bindings) (x : Exec α) (Q : α → Prop) : Prop :=
  ∀ m : Machine, m.Binds B → Result.Meets B Q (x m)

namespace Exec.Meets

variable {α β : Type} {Q R : α → Prop}

lemma of_pure {a : α} (h : Q a) : Exec.Meets B (pure a) Q := fun _ hm => ⟨hm, h⟩

lemma of_throw {e : Fault} (h : e.isInternal = false) : Exec.Meets B (throw e) Q :=
  fun _ hm => ⟨hm, h⟩

lemma of_get : Exec.Meets B get fun _ => True := fun _ hm => ⟨hm, trivial⟩

lemma of_modify {f : Machine → Machine} (hf : ∀ m, (f m).memory.labels = m.memory.labels) :
    Exec.Meets B (modify f) fun _ => True :=
  fun m hm => ⟨hm.of_labels (hf m), trivial⟩

lemma bind {x : Exec α} {f : α → Exec β} {S : β → Prop} (hx : Exec.Meets B x Q)
    (hf : ∀ a, Q a → Exec.Meets B (f a) S) : Exec.Meets B (x >>= f) S := by
  intro m hm
  have h := hx m hm
  simp only [Bind.bind, EStateM.bind]
  cases hr : x m with
  | ok a m₁ =>
    rw [hr] at h
    exact hf a h.2 m₁ h.1
  | error e m₁ =>
    rw [hr] at h
    exact h

lemma of_read {f : Machine → Except Fault α} (hok : ∀ m a, m.Binds B → f m = .ok a → Q a)
    (herror : ∀ m e, m.Binds B → f m = .error e → e.isInternal = false) :
    Exec.Meets B (Machine.read f) Q := by
  intro m hm
  cases hf : f m with
  | ok a =>
    rw [Machine.read_ok hf]
    exact ⟨hm, hok m a hm hf⟩
  | error e =>
    rw [Machine.read_error hf]
    exact ⟨hm, herror m e hm hf⟩

end Exec.Meets

namespace Machine

lemma store_meets (address : Int) (w : Word) : Exec.Meets B (store address w) fun _ => True := by
  intro m hm
  cases h : store address w m with
  | ok u m' =>
    obtain ⟨-, rfl⟩ := store_ok_iff.mp h
    exact ⟨hm.of_labels (Memory.labels_write ..), trivial⟩
  | error e m' =>
    rw [store_eq] at h
    split at h
    · cases h
    · obtain ⟨rfl, rfl⟩ := EStateM.Result.error.inj h
      exact ⟨hm, rfl⟩

lemma storeAll_meets (address : Int) (ws : List Word) :
    Exec.Meets B (storeAll address ws) fun _ => True := by
  induction ws generalizing address with
  | nil => exact .of_pure trivial
  | cons w ws ih => exact (store_meets address w).bind fun _ _ => ih _

lemma load_external {m : Memory} {a : Int} {e : Fault} (h : m.load a = .error e) :
    e.isInternal = false := by
  unfold Memory.load at h
  split at h
  · cases h
  · obtain rfl := Except.error.inj h
    rfl

lemma loadText_external {m : Memory} {a : Int} {e : Fault} (h : m.loadText a = .error e) :
    e.isInternal = false := by
  unfold Memory.loadText at h
  split at h
  · split at h
    · cases h
    · obtain rfl := Except.error.inj h
      rfl
  · obtain rfl := Except.error.inj h
    rfl

lemma print_meets (line : String) : Exec.Meets B (print line) fun _ => True := by
  intro m hm
  have hs := print_same line m
  cases h : print line m with
  | ok u m' =>
    rw [Exec.after_ok h] at hs
    exact ⟨hm.of_labels (congrArg Memory.labels hs.memory), trivial⟩
  | error e m' =>
    rw [Exec.after_error h] at hs
    refine ⟨hm.of_labels (congrArg Memory.labels hs.memory), ?_⟩
    obtain ⟨memory, fp, sp, generator, console⟩ := m
    cases console with
    | none => cases h
    | some c =>
      unfold print at h
      dsimp only at h
      split at h
      · cases h
      · obtain ⟨rfl, -⟩ := EStateM.Result.error.inj h
        rfl

end Machine

lemma Intrinsic.exec_meets (i : Intrinsic) (args : List Word) :
    Exec.Meets B (i.exec args) fun _ => True := by
  have hprint : ∀ line : String,
      Exec.Meets B (do Machine.print line; return some 0 : Exec (Option Word)) fun _ => True :=
    fun line => (Machine.print_meets line).bind fun _ _ => .of_pure trivial
  fun_cases Intrinsic.exec i args with
  | case1 w => exact hprint _
  | case2 w =>
    have hread : Exec.Meets B (Machine.read (·.memory.loadText w.toInt)) fun _ => True :=
      .of_read (fun _ _ _ _ => trivial) fun _ _ _ h => Machine.loadText_external h
    exact hread.bind fun text _ => hprint _
  | case3 w => exact hprint _
  | case4 min max =>
    intro m hm
    dsimp only
    by_cases h : min < max
    · rw [if_pos h]
      exact ⟨hm.of_labels rfl, trivial⟩
    · rw [if_neg h]
      exact ⟨hm, rfl⟩
  | case5 w => exact fun m hm => ⟨hm.of_labels rfl, trivial⟩
  | case6 => exact .of_throw rfl

namespace Routine

lemma enter_meets (r : Routine) (args : List Word) (d : Destination) :
    Exec.Meets B (r.enter args d) fun a => a = { routine := r, destination := d } := by
  unfold enter
  refine .bind .of_get fun m _ => .bind (Machine.storeAll_meets m.sp args) fun _ _ => ?_
  refine .bind (.of_modify fun m => ?_) fun _ _ => .bind .of_get fun m _ => ?_
  · rfl
  · split
    · exact .bind (Q := fun _ => False) (.of_throw rfl) fun _ h => h.elim
    · exact .of_pure rfl

lemma leave_meets (r : Routine) : Exec.Meets B r.leave fun _ => True := by
  have hload : ∀ f : Machine → Int,
      Exec.Meets B (Machine.read fun m => m.memory.load (f m)) fun _ => True :=
    fun f => .of_read (fun _ _ _ _ => trivial) fun _ _ _ h => Machine.load_external h
  unfold leave
  refine .bind (.of_modify fun m => ?_) fun _ _ => .bind (hload _) fun _ _ =>
    .bind (.of_modify fun m => ?_) fun _ _ => hload _
  · rfl
  · rfl

end Routine

structure Routine.Flows (B : Bindings) (r : Routine) (ps : List (Set Temp × Stm)) : Prop where
  code : ps.map Prod.snd = r.code.toList
  follows : ∃ Z, Follows B ∅ ps Z
  guarded : Guarded ps ps
  resolved : r.Resolved

lemma Routine.Flows.getElem? {r : Routine} {ps : List (Set Temp × Stm)} (h : r.Flows B ps) (i : Nat) :
    r.code[i]? = (ps[i]?).map Prod.snd := by
  rw [← Array.getElem?_toList, ← h.code, List.getElem?_map]

namespace Activation

variable {K : Set Temp} {a b : Activation}

def Holds (a : Activation) (K : Set Temp) : Prop := ∀ t ∈ K, ∃ w, a.temps[t]? = some w

lemma eval_external (hK : a.Holds K) {m : Machine} (hm : m.Binds B) {e : Fault} :
    ∀ {x : Exp}, x.Ready B K → a.eval m x = .error e → e.isInternal = false
  | .const w, _, h => by cases h
  | .name l, hx, h => by
    unfold eval Machine.nameValue at h
    rcases hm l hx with rfl | rfl | ⟨address, ha⟩
    · simp at h
    · split at h
      · cases h
      · simp at h
    · split at h
      · cases h
      · split at h
        · cases h
        · rw [Memory.addressOf?, ha] at h
          cases h
  | .temp t, hx, h => by
    obtain ⟨w, hw⟩ := hK t hx
    unfold eval at h
    rw [hw] at h
    cases h
  | .mem x, hx, h => by
    unfold eval at h
    cases hv : a.eval m x with
    | error e' =>
      rw [hv] at h
      obtain rfl := Except.error.inj h
      exact eval_external (x := x) hK hm hx hv
    | ok w =>
      rw [hv] at h
      exact Machine.load_external h
  | .binop op x y, hx, h => by
    unfold eval at h
    cases hv : a.eval m x with
    | error e' =>
      rw [hv] at h
      obtain rfl := Except.error.inj h
      exact eval_external (x := x) hK hm hx.1 hv
    | ok w =>
      cases hv' : a.eval m y with
      | error e' =>
        rw [hv, hv'] at h
        obtain rfl := Except.error.inj h
        exact eval_external (x := y) hK hm hx.2 hv'
      | ok w' =>
        rw [hv, hv'] at h
        cases ho : op.apply w w' with
        | none =>
          simp [bind, Except.bind, ho] at h
          obtain rfl := h
          rfl
        | some v => simp [bind, Except.bind, ho] at h

lemma evalAll_external (hK : a.Holds K) {m : Machine} (hm : m.Binds B) {e : Fault} {xs : List Exp}
    (hx : ∀ x ∈ xs, x.Ready B K) (h : a.evalAll m xs = .error e) : e.isInternal = false := by
  induction xs with
  | nil => cases h
  | cons x xs ih =>
    rw [List.forall_mem_cons] at hx
    unfold evalAll at h
    cases hv : a.eval m x with
    | error e' =>
      rw [hv] at h
      obtain rfl := Except.error.inj h
      exact eval_external hK hm hx.1 hv
    | ok w =>
      cases hv' : a.evalAll m xs with
      | error e' =>
        rw [hv, hv'] at h
        obtain rfl := Except.error.inj h
        exact ih hx.2 hv'
      | ok ws =>
        rw [hv, hv'] at h
        cases h

def receive (a : Activation) (w : Word) : Destination → Activation
  | .temp t => { a with temps := a.temps.insert t w }
  | .memory _ | .discard => a

lemma write_meets (a : Activation) (w : Word) (d : Destination) :
    Exec.Meets B (a.write w d) fun b => b = a.receive w d := by
  cases d with
  | temp t => exact .of_pure rfl
  | memory address => exact (Machine.store_meets address w).bind fun _ _ => .of_pure rfl
  | discard => exact .of_pure rfl

def Ready (B : Bindings) (a : Activation) : Prop :=
  ∃ ps, a.routine.Flows B ps ∧ ∀ k s, ps[a.pc]? = some (k, s) → a.Holds k

lemma Holds.receive {K : Set Temp} (h : a.Holds K) (w : Word) (d : Destination) :
    (a.receive w d).Holds K := by
  intro t ht
  cases d with
  | temp t' =>
    change ∃ v, (a.temps.insert t' w)[t]? = some v
    rw [Std.TreeMap.getElem?_insert]
    split
    · exact ⟨w, rfl⟩
    · exact h t ht
  | memory address => exact h t ht
  | discard => exact h t ht

lemma Holds.receive_temp {K : Set Temp} (h : a.Holds K) (w : Word) (t : Temp) :
    (a.receive w (.temp t)).Holds (insert t K) := by
  rintro t' (rfl | ht)
  · exact ⟨w, by simp [Activation.receive]⟩
  · exact h.receive w (.temp t) t' ht

lemma place_meets {dst : Exp} (hK : a.Holds K) {src : Exp} (h : (Stm.move dst src).Ready B K) :
    Exec.Meets B (Machine.read (a.place · dst)) fun d =>
      ∀ w, (a.advance.receive w d).Holds ((Stm.move dst src).after K) := by
  cases dst with
  | temp t =>
    refine .of_read (fun m d hm hd w => ?_) fun m e hm he => nomatch he
    obtain rfl := Except.ok.inj hd
    exact Holds.receive_temp (a := a.advance) hK w t
  | mem x =>
    refine .of_read (fun m d hm hd w => Holds.receive (a := a.advance) hK w d) fun m e hm he => ?_
    unfold place at he
    dsimp only at he
    cases hv : a.eval m x with
    | error e' =>
      rw [hv] at he
      obtain rfl := Except.error.inj he
      exact eval_external hK hm h.1 hv
    | ok w =>
      rw [hv] at he
      cases he
  | const w => exact h.elim
  | name l => exact h.elim
  | binop op x y => exact h.elim
  | call f args => exact h.elim
  | eseq s x => exact h.elim

end Activation

def Step.Ready (B : Bindings) (d : Destination) : Step → Prop
  | .next a => a.Ready B ∧ a.destination = d
  | .call r _ d' caller =>
    (∃ ps, r.Flows B ps) ∧ caller.destination = d ∧ ∀ w, (caller.receive w d').Ready B
  | .ret => True

structure Image.Provides (B : Bindings) (image : Image) : Prop where
  flows : ∀ (l : Label) (r : Routine), image.routines[l]? = some r → ∃ ps, r.Flows B ps
  function : ∀ l ∈ B.functions,
    (∃ r, image.routines[l]? = some r) ∨ ∃ i, Intrinsic.ofLabel? l = some i

namespace Activation

variable {image : Image} {K : Set Temp} {a b : Activation} {ps : List (Set Temp × Stm)} {s : Stm}

@[simp] lemma destination_receive (a : Activation) (w : Word) (d : Destination) :
    (a.receive w d).destination = a.destination := by
  cases d <;> rfl

@[simp] lemma routine_receive (a : Activation) (w : Word) (d : Destination) :
    (a.receive w d).routine = a.routine := by
  cases d <;> rfl

@[simp] lemma pc_receive (a : Activation) (w : Word) (d : Destination) :
    (a.receive w d).pc = a.pc := by
  cases d <;> rfl

lemma ready_next (hf : a.routine.Flows B ps) (hc : ps[a.pc]? = some (K, s))
    (hr : b.routine = a.routine) (hp : b.pc = a.pc + 1) (hb : b.Holds (s.after K)) :
    b.Ready B := by
  obtain ⟨Z, hfollows⟩ := hf.follows
  refine ⟨ps, hr ▸ hf, fun k s' hk t ht => hb t ?_⟩
  rw [hp] at hk
  exact (hfollows.at hc).2 k s' hk ht

lemma goto_meets (hf : a.routine.Flows B ps) (hc : ps[a.pc]? = some (K, s)) (hh : a.Holds K)
    {l : Label} (hl : l ∈ s.targets) :
    Exec.Meets B (Machine.read fun _ => a.goto l) fun b =>
      b.Ready B ∧ b.destination = a.destination := by
  obtain ⟨k, hm, hk⟩ := hf.guarded (K, s) (List.mem_of_getElem? hc) l hl
  obtain ⟨i, hi⟩ := List.mem_iff_getElem?.mp hm
  have hcode : a.routine.code[i]? = some (.label l) := by
    rw [hf.getElem?, hi]
    rfl
  rw [goto_ok.mpr ⟨i, hf.resolved i l hcode, rfl⟩]
  refine .of_read (fun m b _ hb => ?_) fun _ _ _ he => nomatch he
  obtain rfl := Except.ok.inj hb
  refine ⟨⟨ps, hf, fun k' s' hk' t ht => hh t (hk ?_)⟩, rfl⟩
  obtain ⟨rfl, -⟩ := Prod.mk.inj (Option.some.inj (hk'.symm.trans hi))
  exact ht

lemma call_meets (hi : image.Provides B) (ha : a.Ready B) (hh : a.Holds K) {f : Label}
    {args : List Exp} {d : Destination} (hs : (Exp.call f args).ReadySource B K)
    (hnext : ∀ w, (a.advance.receive w d).Ready B) :
    Exec.Meets B (a.call image f args d) (Step.Ready B a.destination) := by
  unfold call
  have hargs : Exec.Meets B (Machine.read (a.evalAll · args)) fun _ => True :=
    .of_read (fun _ _ _ _ => trivial) fun _ _ hm he => evalAll_external hh hm hs.2 he
  refine hargs.bind fun values _ => ?_
  cases hr : image.routines[f]? with
  | some r =>
    exact .of_pure ⟨hi.flows f r hr, rfl, hnext⟩
  | none =>
    rcases hi.function f hs.1 with ⟨r, hr'⟩ | ⟨i, hi'⟩
    · cases hr.symm.trans hr'
    · rw [hi']
      refine (i.exec_meets values.tail).bind fun w _ => ?_
      cases w with
      | none => exact .of_pure ⟨ha, rfl⟩
      | some w =>
        refine (write_meets a.advance w d).bind fun b hb => ?_
        subst hb
        exact .of_pure ⟨hnext w, by simp [advance]⟩

lemma step_meets (hi : image.Provides B) (ha : a.Ready B) :
    Exec.Meets B (a.step image) (Step.Ready B a.destination) := by
  obtain ⟨ps, hf, hat⟩ := ha
  have hget := hf.getElem? a.pc
  cases hc : ps[a.pc]? with
  | none =>
    rw [hc] at hget
    rw [step_end hget]
    exact .of_pure trivial
  | some p =>
    obtain ⟨k, s⟩ := p
    rw [hc] at hget
    have hh : a.Holds k := hat k s hc
    obtain ⟨Z, hfollows⟩ := hf.follows
    have hs := (hfollows.at hc).1
    have heval : ∀ {x : Exp}, x.Ready B k →
        Exec.Meets B (Machine.read (a.eval · x)) fun _ => True := fun hx =>
      .of_read (fun _ _ _ _ => trivial) fun _ _ hm he => eval_external hh hm hx he
    cases s with
    | seq ss => exact hs.elim
    | label l =>
      rw [step_label hget]
      exact .of_pure ⟨ready_next hf hc rfl rfl hh, rfl⟩
    | jump l =>
      rw [step_jump hget]
      refine (goto_meets hf hc hh (List.mem_singleton_self l)).bind fun b hb => .of_pure hb
    | cjump x l l' =>
      rw [step_cjump hget]
      refine (heval hs).bind fun w _ => ?_
      split
      · exact (goto_meets hf hc hh (List.mem_cons_self ..)).bind fun b hb => .of_pure hb
      · split
        · refine (goto_meets hf hc hh ?_).bind fun b hb => .of_pure hb
          exact List.mem_cons_of_mem _ (List.mem_singleton_self l')
        · exact .of_throw rfl
    | exp x =>
      cases hx : x.isCall with
      | false =>
        rw [step_exp hget hx]
        refine (heval ((Exp.readySource_of_not_isCall hx).mp hs)).bind fun _ _ => .of_pure ?_
        exact ⟨ready_next hf hc rfl rfl hh, rfl⟩
      | true =>
        cases x with
        | call f args =>
          rw [step_exp_call hget]
          exact call_meets hi ⟨ps, hf, hat⟩ hh hs fun w => ready_next hf hc rfl rfl hh
        | _ => cases hx
    | move dst src =>
      have hplace := place_meets hh hs
      have hsrc : src.ReadySource B k := by
        cases dst with
        | temp t => exact hs
        | mem x => exact hs.2
        | _ => exact hs.elim
      have hnext : ∀ {d : Destination},
          (∀ w, (a.advance.receive w d).Holds ((Stm.move dst src).after k)) →
          ∀ w, (a.advance.receive w d).Ready B := fun hd w =>
        ready_next hf hc (by simp [advance]) (by simp [advance]) (hd w)
      cases hx : src.isCall with
      | false =>
        rw [step_move hget hx]
        refine hplace.bind fun d hd => (heval ((Exp.readySource_of_not_isCall hx).mp hsrc)).bind
          fun w _ => (write_meets a.advance w d).bind fun b hb => ?_
        subst hb
        exact .of_pure ⟨hnext hd w, by simp [advance]⟩
      | true =>
        cases src with
        | call f args =>
          rw [step_move_call hget]
          exact hplace.bind fun d hd => call_meets hi ⟨ps, hf, hat⟩ hh hsrc (hnext hd)
        | _ => cases hx

end Activation

namespace Thread

def Awaits (B : Bindings) : Destination → List Activation → Prop
  | _, [] => True
  | d, a :: as => (∀ w, (a.receive w d).Ready B) ∧ Awaits B a.destination as

def Ready (B : Bindings) (t : Thread) : Prop :=
  t.current.Ready B ∧ Awaits B t.current.destination t.callers

end Thread

def Progress.Ready (B : Bindings) : Progress → Prop
  | .running t => t.Ready B
  | .finished _ => True

lemma Routine.Flows.ready {r : Routine} {ps : List (Set Temp × Stm)} (h : r.Flows B ps)
    (d : Destination) : Activation.Ready B { routine := r, destination := d } := by
  obtain ⟨Z, hf⟩ := h.follows
  refine ⟨ps, h, fun k s hk t ht => ?_⟩
  cases ps with
  | nil => cases hk
  | cons p ps =>
    obtain rfl : p = (k, s) := by simpa using hk
    exact (hf.1 ht).elim

namespace Thread

variable {image : Image} {t : Thread}

lemma advance_meets (hi : image.Provides B) (ht : t.Ready B) :
    Exec.Meets B (t.advance image) (Progress.Ready B) := by
  unfold advance
  refine (Activation.step_meets hi ht.1).bind fun step hs => ?_
  cases step with
  | next a =>
    refine .of_pure ⟨hs.1, ?_⟩
    rw [hs.2]
    exact ht.2
  | call r args d caller =>
    obtain ⟨⟨ps, hc⟩, hd, hw⟩ := hs
    refine (r.enter_meets args d).bind fun a ha => ?_
    subst ha
    refine .of_pure ⟨hc.ready d, hw, ?_⟩
    rw [hd]
    exact ht.2
  | ret =>
    refine (t.current.routine.leave_meets).bind fun w _ => ?_
    cases hcallers : t.callers with
    | nil => exact .of_pure trivial
    | cons caller callers =>
      have haw := ht.2
      rw [hcallers] at haw
      refine (Activation.write_meets caller w t.current.destination).bind fun a ha => ?_
      subst ha
      refine .of_pure ⟨haw.1 w, ?_⟩
      rw [Activation.destination_receive]
      exact haw.2

lemma runFor_meets (hi : image.Provides B) (ht : t.Ready B) (fuel : Nat) {m : Machine}
    (hm : m.Binds B) :
    (t.runFor image fuel m).2.Binds B ∧
      (∀ e, (t.runFor image fuel m).1 = .fault e → e.isInternal = false) ∧
      ∀ t', (t.runFor image fuel m).1 = .unfinished t' → t'.Ready B := by
  refine runFor_invariant (P := fun t m => t.Ready B ∧ m.Binds B)
    (Q := fun o m => m.Binds B ∧ (∀ e, o = .fault e → e.isInternal = false) ∧
      ∀ t', o = .unfinished t' → t'.Ready B)
    (fun t m t' m' h hr => ?_) (fun t m w m' h hr => ?_) (fun t m e m' h hr => ?_)
    (fun t m h => ⟨h.2, nofun, fun t' ht' => ?_⟩) fuel ⟨ht, hm⟩
  · have hnext := advance_meets hi h.1 m h.2
    rw [hr] at hnext
    exact ⟨hnext.2, hnext.1⟩
  · have hnext := advance_meets hi h.1 m h.2
    rw [hr] at hnext
    exact ⟨hnext.1, nofun, nofun⟩
  · have hnext := advance_meets hi h.1 m h.2
    rw [hr] at hnext
    refine ⟨hnext.1, fun e' he => ?_, nofun⟩
    obtain rfl := Outcome.fault.inj he
    exact hnext.2
  · obtain rfl := Outcome.unfinished.inj ht'
    exact h.1

end Thread

namespace Image

variable {image : Image}

lemma start_meets (hi : image.Provides B) (he : ∃ r, image.routines[image.entry]? = some r) :
    Exec.Meets B image.start (Thread.Ready B) := by
  obtain ⟨r, hr⟩ := he
  obtain ⟨ps, hc⟩ := hi.flows _ r hr
  unfold start
  rw [hr]
  dsimp only
  split
  · exact .bind (Q := fun _ => False) (.of_throw rfl) fun _ h => h.elim
  · refine .bind .of_get fun m _ => (Machine.store_meets _ _).bind fun _ _ =>
      (r.enter_meets [0] .discard).bind fun a ha => ?_
    subst ha
    exact .of_pure ⟨hc.ready .discard, trivial⟩

lemma run_meets (hi : image.Provides B) (he : ∃ r, image.routines[image.entry]? = some r)
    (fuel : Nat) {m : Machine} (hm : m.Binds B) :
    (image.run fuel m).2.Binds B ∧
      (∀ e, (image.run fuel m).1 = .fault e → e.isInternal = false) ∧
      ∀ t, (image.run fuel m).1 = .unfinished t → t.Ready B := by
  have h := start_meets hi he m hm
  cases hr : image.start m with
  | ok t m' =>
    rw [hr] at h
    rw [run_of_start hr]
    exact Thread.runFor_meets hi h.2 fuel h.1
  | error e m' =>
    rw [hr] at h
    rw [run_of_start_error hr]
    refine ⟨h.1, fun e' he => ?_, nofun⟩
    obtain rfl := Outcome.fault.inj he
    exact h.2

/-- The machines that are left by any number of runs, however they end. -/
inductive Reruns (image : Image) (m : Machine) : Machine → Prop where
  | none : Reruns image m m
  | run {m' : Machine} (h : Reruns image m m') (fuel : Nat) : Reruns image m (image.run fuel m').2

end Image

def Code.Program.bindings (code : Code.Program) : Bindings where
  names := {l | l = .framePointer ∨ l = .stackPointer ∨
    ∃ c ∈ code.chunks, ∃ size, c.static? = some (size, l)}
  functions := {l | (∃ frame body, .code frame body ∈ code.chunks ∧ frame.label = l) ∨
    ∃ i : Intrinsic, i.label = l}

namespace Source.Program.Compiles

open Lowering

variable {p : Program} {entry : String} {code : Code.Program} {layout : Layout} {st : State}

lemma supports (h : p.Compiles entry code layout st) :
    Supports code.bindings (p.scope layout) where
  framePointer := .inl rfl
  stackPointer := .inr (.inl rfl)
  global _ size _ ha := .inr (.inr ⟨_, h.global_of_access ha, size, rfl⟩)
  function _ f hf := by
    obtain ⟨body, hb⟩ := h.code_of_frame hf
    exact .inl ⟨f, body, hb, rfl⟩
  intrinsic i := .inr ⟨i, rfl⟩

lemma flows (h : p.Compiles entry code layout st)
    (hp : Def.havePlainCounters p.defs.definitions = true) {frame : Frame} {body : Stm}
    (hm : .code frame body ∈ code.chunks) {r : Routine} (hr : Routine.ofBody frame body = .ok r) :
    ∃ ps, r.Flows code.bindings ps := by
  have hn := h.nodup_labels hp hm
  obtain ⟨outer, n, x, ps, t, b, fragment, st₁, st₂, -, -, hrun, hs, rfl⟩ := h.code_origin hm
  have hd : Defines code.bindings st₂ := fun size l text hc => .inr (.inr ⟨_, hs hc, size, rfl⟩)
  have hvalue := (expr_safe h.supports b hd hrun).toExp
  have hplace : (Exp.mem (.name .framePointer)).Ready code.bindings ∅ := h.supports.framePointer
  obtain ⟨Z, -, -, ps, hps, hf, hg⟩ :=
    Stm.safe_move_mem hplace.safe hvalue st₂.nextTemp ∅ Set.Subset.rfl
  obtain rfl := Except.ok.inj ((Routine.ofBody_flat frame _ st₂.nextTemp).symm.trans hr)
  exact ⟨ps, hps.trans (by simp [returning]), ⟨Z, hf⟩, hg, Routine.resolved_of_nodup hn⟩

variable {setup : Setup} {image : Image} {m : Machine}

lemma provides (h : p.Compiles entry code layout st)
    (hp : Def.havePlainCounters p.defs.definitions = true)
    (hl : Image.load code setup = .ok (image, m)) : image.Provides code.bindings := by
  have hloaded := Image.loaded_of_load hl
  refine ⟨fun l r hr => ?_, fun l hf => ?_⟩
  · obtain ⟨frame, body, hm, -, hb⟩ := hloaded.origin l r hr
    exact h.flows hp hm hb
  · rcases hf with ⟨frame, body, hm, rfl⟩ | ⟨i, rfl⟩
    · exact .inl (hloaded.routine frame body hm)
    · exact .inr ⟨i, Intrinsic.ofLabel?_label i⟩

end Source.Program.Compiles

lemma Image.binds_of_load {code : Code.Program} {setup : Setup} {image : Image} {m : Machine}
    (hl : Image.load code setup = .ok (image, m)) : m.Binds code.bindings := by
  have hloaded := Image.loaded_of_load hl
  rintro l (rfl | rfl | ⟨c, hc, size, hs⟩)
  · exact .inl rfl
  · exact .inr (.inl rfl)
  · exact .inr (.inr (hloaded.static c hc size l hs))

/-- If the counters of a program are plain, then the only fault of loading it is a lack of memory, and
no run raises an internal fault, whatever earlier runs have left on the machine. -/
theorem compiled_code_raises_no_internal_fault {p : Source.Program} {entry : String}
    {code : Code.Program} (hp : Def.havePlainCounters p.defs.definitions = true)
    (h : p.compile entry = .ok code) (setup : Setup) :
    (∀ e, Image.load code setup = .error e → ∃ address, e = .addressOutOfBounds address) ∧
      ∀ image m₀ m, Image.load code setup = .ok (image, m₀) → image.Reruns m₀ m →
        ∀ fuel e, (image.run fuel m).1 = .fault e → e.isInternal = false := by
  obtain ⟨layout, st, hc⟩ := Program.compile_ok.mp h
  refine ⟨fun e he => Image.load_error hc.loadable he, fun image m₀ m hl hm fuel => ?_⟩
  have hi := hc.provides hp hl
  have he := hc.entry_routine hl
  have hb : m.Binds code.bindings := by
    induction hm with
    | none => exact Image.binds_of_load hl
    | run _ fuel ih => exact (Image.run_meets hi he fuel ih).1
  exact (Image.run_meets hi he fuel hb).2.1

theorem compiled_code_raises_no_internal_fault_arrays :
    ∃ p code, Builder.run Sample.arraySumProgram = .ok p ∧ p.compile "main" = .ok code ∧
      ∀ setup image m₀, Image.load code setup = .ok (image, m₀) →
        ∀ fuel e, (image.run fuel m₀).1 = .fault e → e.isInternal = false := by
  obtain ⟨p, hb, h⟩ : ∃ p, Builder.run Sample.arraySumProgram = .ok p ∧
      (Def.havePlainCounters p.defs.definitions &&
        (p.compile "main").toOption.any fun _ => true) = true :=
    exists_ok_of_any (by decide +kernel)
  simp only [Bool.and_eq_true] at h
  obtain ⟨code, hc, -⟩ := exists_ok_of_any h.2
  exact ⟨p, code, hb, hc, fun setup image m₀ hl =>
    (compiled_code_raises_no_internal_fault h.1 hc setup).2 image m₀ m₀ hl .none⟩

end BlockLang
