import BlockLang.Proofs.Intrinsics

namespace BlockLang

open Code

lemma Intrinsic.eq_label_of_ofLabel? {l : Label} {i : Intrinsic} (h : Intrinsic.ofLabel? l = some i) :
    l = i.label := by
  cases l with
  | named name =>
    have hn : i.name = name := by simpa using List.find?_some h
    rw [Intrinsic.label, hn]
  | anonymous k => cases h

def Image.Genuine (image : Image) : Prop := ∀ i : Intrinsic, image.routines[i.label]? = none

lemma Exec.bind_error {α β : Type} {x : Exec α} {f : α → Exec β} {m m' : Machine} {e : Fault} :
    (x >>= f) m = .error e m' ↔
      x m = .error e m' ∨ ∃ a m₁, x m = .ok a m₁ ∧ f a m₁ = .error e m' := by
  simp only [bind, EStateM.bind]
  cases x m <;> simp

lemma Intrinsic.call_error {l : Label} {ws : List Word} {m m' : Machine} {e : Fault}
    (h : Intrinsic.call l ws m = .error e m') (he : ∀ l, e ≠ .notAFunction l) :
    ∃ i, Intrinsic.ofLabel? l = some i ∧ i.exec ws.tail m = .error e m' := by
  delta Intrinsic.call at h
  cases hi : Intrinsic.ofLabel? l with
  | none =>
    rw [hi] at h
    obtain ⟨rfl, -⟩ := EStateM.Result.error.inj h
    exact (he l rfl).elim
  | some i =>
    rw [hi] at h
    rcases Exec.bind_error.mp h with hx | ⟨r, m₁, hx, h⟩
    · exact ⟨i, rfl, hx⟩
    · cases r with
      | none =>
        obtain ⟨rfl, -⟩ := EStateM.Result.error.inj h
        exact (he l rfl).elim
      | some w => exact nomatch h

namespace Activation

variable {image : Image} {a b : Activation} {m m' : Machine} {s : Stm} {e : Fault}

lemma advance_write {w : Word} {d : Destination} (h : a.write w d m = .ok b m') :
    a.advance.write w d m = .ok b.advance m' := by
  cases d with
  | temp t =>
    obtain ⟨rfl, rfl⟩ := Exec.pure_ok.mp h
    rfl
  | discard =>
    obtain ⟨rfl, rfl⟩ := Exec.pure_ok.mp h
    rfl
  | memory address =>
    obtain ⟨u, m₁, hs, h⟩ := Exec.bind_ok.mp h
    obtain ⟨rfl, rfl⟩ := Exec.pure_ok.mp h
    exact Exec.bind_ok.mpr ⟨u, m₁, hs, rfl⟩

lemma step_end (hs : a.routine.code[a.pc]? = none) : a.step image = pure .ret := by
  delta step
  rw [hs]

lemma step_move {dst v : Exp} (hs : a.routine.code[a.pc]? = some (.move dst v))
    (hv : v.isCall = false) :
    a.step image = (do
      let d ← Machine.read (a.place · dst)
      return .next (← a.advance.write (← Machine.read (a.eval · v)) d)) := by
  delta step
  rw [hs]
  cases v with
  | call f args => cases hv
  | _ => rfl

lemma step_exp {v : Exp} (hs : a.routine.code[a.pc]? = some (.exp v)) (hv : v.isCall = false) :
    a.step image = (do
      let _ ← Machine.read (a.eval · v)
      return .next a.advance) := by
  delta step
  rw [hs]
  cases v with
  | call f args => cases hv
  | _ => rfl

lemma step_move_call {dst : Exp} {f : Label} {args : List Exp}
    (hs : a.routine.code[a.pc]? = some (.move dst (.call f args))) :
    a.step image = (do
      let d ← Machine.read (a.place · dst)
      a.call image f args d) := by
  delta step
  rw [hs]

lemma step_exp_call {f : Label} {args : List Exp}
    (hs : a.routine.code[a.pc]? = some (.exp (.call f args))) :
    a.step image = a.call image f args .discard := by
  delta step
  rw [hs]

lemma step_jump {l : Label} (hs : a.routine.code[a.pc]? = some (.jump l)) :
    a.step image = (do return .next (← Machine.read fun _ => a.goto l)) := by
  delta step
  rw [hs]

lemma step_cjump {c : Exp} {l l' : Label} (hs : a.routine.code[a.pc]? = some (.cjump c l l')) :
    a.step image = (do
      let w ← Machine.read (a.eval · c)
      if w = 1 then return .next (← Machine.read fun _ => a.goto l)
      else if w = 0 then return .next (← Machine.read fun _ => a.goto l')
      else throw (.invalidCondition w)) := by
  delta step
  rw [hs]

lemma step_label {l : Label} (hs : a.routine.code[a.pc]? = some (.label l)) :
    a.step image = pure (.next a.advance) := by
  delta step
  rw [hs]

lemma step_seq {ss : List Stm} (hs : a.routine.code[a.pc]? = some (.seq ss)) :
    a.step image = throw (.notLinearized a.label) := by
  delta step
  rw [hs]

lemma call_of_run (hg : image.Genuine) {f : Label} {args : List Exp} {d : Destination}
    {values : List Word} {w : Word} {m₁ : Machine} (ha : a.evalAll m args = .ok values)
    (hr : intrinsicCalls.run f values m = .ok w m₁) (hw : a.write w d m₁ = .ok b m') :
    a.call image f args d m = .ok (.next b.advance) m' := by
  obtain ⟨i, hi, hx⟩ := Intrinsic.call_ok hr
  obtain rfl := Intrinsic.eq_label_of_ofLabel? hi
  delta call
  refine Exec.bind_ok.mpr ⟨values, m, Machine.read_ok ha, ?_⟩
  rw [hg i, hi]
  exact Exec.bind_ok.mpr ⟨some w, m₁, hx, Exec.bind_ok.mpr ⟨_, m', advance_write hw, rfl⟩⟩

lemma step_of_exec (hg : image.Genuine) (hs : a.routine.code[a.pc]? = some s)
    (h : a.exec intrinsicCalls s m = .ok b m') : a.step image m = .ok (.next b) m' := by
  cases s with
  | move dst v =>
    obtain ⟨c, m₁, hp, h⟩ := Exec.bind_ok.mp h
    obtain ⟨rfl, rfl⟩ := Exec.pure_ok.mp h
    cases hv : v.isCall with
    | false =>
      rw [perform_move _ hv] at hp
      rw [step_move hs hv]
      obtain ⟨d, _, hd, hp⟩ := Exec.bind_ok.mp hp
      obtain ⟨w, _, hw, hp⟩ := Exec.bind_ok.mp hp
      exact Exec.bind_ok.mpr ⟨d, _, hd, Exec.bind_ok.mpr ⟨w, _, hw,
        Exec.bind_ok.mpr ⟨_, _, advance_write hp, rfl⟩⟩⟩
    | true =>
      cases v with
      | call f args =>
        rw [step_move_call hs]
        obtain ⟨d, _, hd, hp⟩ := Exec.bind_ok.mp hp
        obtain ⟨values, _, hread, hp⟩ := Exec.bind_ok.mp hp
        obtain ⟨w, m₂, hr, hw⟩ := Exec.bind_ok.mp hp
        obtain ⟨ha, rfl⟩ := Machine.read_ok_iff.mp hread
        exact Exec.bind_ok.mpr ⟨d, _, hd, call_of_run hg ha hr hw⟩
      | _ => cases hv
  | exp v =>
    obtain ⟨c, m₁, hp, h⟩ := Exec.bind_ok.mp h
    obtain ⟨rfl, rfl⟩ := Exec.pure_ok.mp h
    cases hv : v.isCall with
    | false =>
      rw [perform_exp _ hv] at hp
      rw [step_exp hs hv]
      obtain ⟨w, _, hw, hp⟩ := Exec.bind_ok.mp hp
      obtain ⟨rfl, rfl⟩ := Exec.pure_ok.mp hp
      exact Exec.bind_ok.mpr ⟨w, _, hw, rfl⟩
    | true =>
      cases v with
      | call f args =>
        rw [step_exp_call hs]
        obtain ⟨values, _, hread, hp⟩ := Exec.bind_ok.mp hp
        obtain ⟨w, m₂, hr, hw⟩ := Exec.bind_ok.mp hp
        obtain ⟨ha, rfl⟩ := Machine.read_ok_iff.mp hread
        obtain ⟨rfl, rfl⟩ := Exec.pure_ok.mp hw
        exact call_of_run hg ha hr rfl
      | _ => cases hv
  | seq ss =>
    obtain ⟨c, m₁, hp, -⟩ := Exec.bind_ok.mp h
    exact nomatch hp
  | cjump c l l' =>
    rw [step_cjump hs]
    obtain ⟨w, m₁, hw, h⟩ := Exec.bind_ok.mp h
    refine Exec.bind_ok.mpr ⟨w, m₁, hw, ?_⟩
    by_cases h1 : w = 1
    · rw [if_pos h1] at h ⊢
      exact Exec.bind_ok.mpr ⟨b, m', h, rfl⟩
    · rw [if_neg h1] at h ⊢
      by_cases h0 : w = 0
      · rw [if_pos h0] at h ⊢
        exact Exec.bind_ok.mpr ⟨b, m', h, rfl⟩
      · rw [if_neg h0] at h
        exact nomatch h
  | jump l =>
    rw [step_jump hs]
    exact Exec.bind_ok.mpr ⟨b, m', h, rfl⟩
  | label l =>
    rw [step_label hs]
    obtain ⟨rfl, rfl⟩ := Exec.pure_ok.mp h
    rfl

lemma advance_write_error {w : Word} {d : Destination} (h : a.write w d m = .error e m') :
    a.advance.write w d m = .error e m' := by
  cases d with
  | temp t => exact nomatch h
  | discard => exact nomatch h
  | memory address =>
    rcases Exec.bind_error.mp h with h | ⟨_, _, _, h⟩
    · exact Exec.bind_error.mpr (.inl h)
    · exact nomatch h

lemma call_of_run_error (hg : image.Genuine) {f : Label} {args : List Exp} {d : Destination}
    {values : List Word} (ha : a.evalAll m args = .ok values)
    (hr : intrinsicCalls.run f values m = .error e m') (he : ∀ l, e ≠ .notAFunction l) :
    a.call image f args d m = .error e m' := by
  obtain ⟨i, hi, hx⟩ := Intrinsic.call_error hr he
  obtain rfl := Intrinsic.eq_label_of_ofLabel? hi
  delta call
  refine Exec.bind_error.mpr (.inr ⟨values, m, Machine.read_ok ha, ?_⟩)
  rw [hg i, hi]
  exact Exec.bind_error.mpr (.inl hx)

lemma call_of_write_error (hg : image.Genuine) {f : Label} {args : List Exp} {d : Destination}
    {values : List Word} {w : Word} {m₁ : Machine} (ha : a.evalAll m args = .ok values)
    (hr : intrinsicCalls.run f values m = .ok w m₁) (hw : a.write w d m₁ = .error e m') :
    a.call image f args d m = .error e m' := by
  obtain ⟨i, hi, hx⟩ := Intrinsic.call_ok hr
  obtain rfl := Intrinsic.eq_label_of_ofLabel? hi
  delta call
  refine Exec.bind_error.mpr (.inr ⟨values, m, Machine.read_ok ha, ?_⟩)
  rw [hg i, hi]
  exact Exec.bind_error.mpr (.inr ⟨some w, m₁, hx,
    Exec.bind_error.mpr (.inl (advance_write_error hw))⟩)

lemma step_of_exec_error (hg : image.Genuine) (hs : a.routine.code[a.pc]? = some s)
    (h : a.exec intrinsicCalls s m = .error e m') (he : ∀ l, e ≠ .notAFunction l) :
    a.step image m = .error e m' := by
  cases s with
  | move dst v =>
    rcases Exec.bind_error.mp h with hp | ⟨_, _, _, hp⟩
    · cases hv : v.isCall with
      | false =>
        rw [perform_move _ hv] at hp
        rw [step_move hs hv]
        rcases Exec.bind_error.mp hp with hd | ⟨d, m₁, hd, hp⟩
        · exact Exec.bind_error.mpr (.inl hd)
        refine Exec.bind_error.mpr (.inr ⟨d, m₁, hd, ?_⟩)
        rcases Exec.bind_error.mp hp with hw | ⟨w, m₂, hw, hp⟩
        · exact Exec.bind_error.mpr (.inl hw)
        exact Exec.bind_error.mpr (.inr ⟨w, m₂, hw,
          Exec.bind_error.mpr (.inl (advance_write_error hp))⟩)
      | true =>
        cases v with
        | call f args =>
          rw [step_move_call hs]
          rcases Exec.bind_error.mp hp with hd | ⟨d, m₁, hd, hp⟩
          · exact Exec.bind_error.mpr (.inl hd)
          refine Exec.bind_error.mpr (.inr ⟨d, m₁, hd, ?_⟩)
          rcases Exec.bind_error.mp hp with ha | ⟨values, m₂, hread, hp⟩
          · exact Exec.bind_error.mpr (.inl ha)
          obtain ⟨ha, rfl⟩ := Machine.read_ok_iff.mp hread
          rcases Exec.bind_error.mp hp with hr | ⟨w, m₃, hr, hw⟩
          · exact call_of_run_error hg ha hr he
          · exact call_of_write_error hg ha hr hw
        | _ => cases hv
    · exact nomatch hp
  | exp v =>
    rcases Exec.bind_error.mp h with hp | ⟨_, _, _, hp⟩
    · cases hv : v.isCall with
      | false =>
        rw [perform_exp _ hv] at hp
        rw [step_exp hs hv]
        rcases Exec.bind_error.mp hp with hw | ⟨_, _, _, hp⟩
        · exact Exec.bind_error.mpr (.inl hw)
        · exact nomatch hp
      | true =>
        cases v with
        | call f args =>
          rw [step_exp_call hs]
          rcases Exec.bind_error.mp hp with ha | ⟨values, m₂, hread, hp⟩
          · exact Exec.bind_error.mpr (.inl ha)
          obtain ⟨ha, rfl⟩ := Machine.read_ok_iff.mp hread
          rcases Exec.bind_error.mp hp with hr | ⟨w, m₃, hr, hw⟩
          · exact call_of_run_error hg ha hr he
          · exact nomatch hw
        | _ => cases hv
    · exact nomatch hp
  | seq ss =>
    rw [step_seq hs]
    rcases Exec.bind_error.mp h with hp | ⟨_, _, _, hp⟩
    · obtain ⟨rfl, rfl⟩ := EStateM.Result.error.inj hp
      rfl
    · exact nomatch hp
  | cjump c l l' =>
    rw [step_cjump hs]
    rcases Exec.bind_error.mp h with hw | ⟨w, m₁, hw, h⟩
    · exact Exec.bind_error.mpr (.inl hw)
    refine Exec.bind_error.mpr (.inr ⟨w, m₁, hw, ?_⟩)
    by_cases h1 : w = 1
    · rw [if_pos h1] at h ⊢
      exact Exec.bind_error.mpr (.inl h)
    · rw [if_neg h1] at h ⊢
      by_cases h0 : w = 0
      · rw [if_pos h0] at h ⊢
        exact Exec.bind_error.mpr (.inl h)
      · rw [if_neg h0] at h ⊢
        obtain ⟨rfl, rfl⟩ := EStateM.Result.error.inj h
        rfl
  | jump l =>
    rw [step_jump hs]
    exact Exec.bind_error.mpr (.inl h)
  | label l => exact nomatch h

end Activation

namespace Outcome

variable {o : Outcome} {w : Word} {e : Fault}

def isValue (w : Word) : Outcome → Bool
  | .value w' => w' = w
  | .fault _ | .unfinished _ => false

def isFault (e : Fault) : Outcome → Bool
  | .fault e' => e' = e
  | .value _ | .unfinished _ => false

lemma eq_value_of_isValue (h : o.isValue w = true) : o = .value w := by
  cases o with
  | value w' => rw [of_decide_eq_true h]
  | fault | unfinished => cases h

lemma eq_fault_of_isFault (h : o.isFault e = true) : o = .fault e := by
  cases o with
  | fault e' => rw [of_decide_eq_true h]
  | value | unfinished => cases h

end Outcome

def Image.resume (image : Image) (n : Nat) : Outcome × Machine → Outcome × Machine
  | (.unfinished t, m) => t.runFor image n m
  | (.value w, m) => (.value w, m)
  | (.fault e, m) => (.fault e, m)

namespace Thread

variable {image : Image} {t t' : Thread} {m m' : Machine}

lemma runFor_succ (image : Image) (fuel : Nat) (t : Thread) (m : Machine) :
    runFor image (fuel + 1) t m =
      match t.advance image m with
      | .ok (.running t) m => runFor image fuel t m
      | .ok (.finished w) m => (.value w, m)
      | .error e m => (.fault e, m) := rfl

lemma runFor_of_running (h : t.advance image m = .ok (.running t') m') (fuel : Nat) :
    runFor image (fuel + 1) t m = runFor image fuel t' m' := by
  rw [runFor_succ, h]

lemma runFor_of_finished {w : Word} (h : t.advance image m = .ok (.finished w) m') (fuel : Nat) :
    runFor image (fuel + 1) t m = (.value w, m') := by
  rw [runFor_succ, h]

lemma runFor_of_error {e : Fault} (h : t.advance image m = .error e m') (fuel : Nat) :
    runFor image (fuel + 1) t m = (.fault e, m') := by
  rw [runFor_succ, h]

lemma runFor_add (fuel n : Nat) :
    t.runFor image (fuel + n) m = image.resume n (t.runFor image fuel m) := by
  induction fuel generalizing t m with
  | zero =>
    rw [Nat.zero_add]
    rfl
  | succ fuel ih =>
    rw [Nat.add_right_comm]
    cases hs : t.advance image m with
    | error e m₁ =>
      rw [runFor_of_error hs, runFor_of_error hs]
      rfl
    | ok r m₁ =>
      cases r with
      | finished w =>
        rw [runFor_of_finished hs, runFor_of_finished hs]
        rfl
      | running t₁ =>
        rw [runFor_of_running hs, runFor_of_running hs]
        exact ih

/-- An invariant `P` of the steps of a thread gives `Q` for every end of a run. -/
lemma runFor_invariant {P : Thread → Machine → Prop} {Q : Outcome → Machine → Prop}
    (running : ∀ t m t' m', P t m → t.advance image m = .ok (.running t') m' → P t' m')
    (finished : ∀ t m w m', P t m → t.advance image m = .ok (.finished w) m' → Q (.value w) m')
    (fault : ∀ t m e m', P t m → t.advance image m = .error e m' → Q (.fault e) m')
    (unfinished : ∀ t m, P t m → Q (.unfinished t) m) (fuel : Nat) (h : P t m) :
    Q (runFor image fuel t m).1 (runFor image fuel t m).2 := by
  induction fuel generalizing t m with
  | zero => exact unfinished t m h
  | succ fuel ih =>
    cases ha : t.advance image m with
    | error e m' =>
      rw [runFor_of_error ha]
      exact fault t m e m' h ha
    | ok p m' =>
      cases p with
      | finished w =>
        rw [runFor_of_finished ha]
        exact finished t m w m' h ha
      | running t' =>
        rw [runFor_of_running ha]
        exact ih (running t m t' m' h ha)

variable {a b : Activation} {callers : List Activation} {k : Nat}

lemma runFor_of_reach (hg : image.Genuine) (h : Reach intrinsicCalls k a m b m') (fuel : Nat) :
    runFor image (k + fuel) ⟨a, callers⟩ m = runFor image fuel ⟨b, callers⟩ m' := by
  induction h with
  | refl => rw [Nat.zero_add]
  | step hs hx hr ih =>
    have hstep : (Thread.mk _ callers).advance image _ = .ok (.running ⟨_, callers⟩) _ :=
      Exec.bind_ok.mpr ⟨_, _, Activation.step_of_exec hg hs hx, rfl⟩
    rw [Nat.add_right_comm, runFor_of_running hstep]
    exact ih

lemma runFor_of_faults (hg : image.Genuine) {e : Fault} (h : Faults intrinsicCalls a m e m')
    (he : ∀ l, e ≠ .notAFunction l) (fuel : Nat) :
    runFor image (fuel + 1) ⟨a, callers⟩ m = (.fault e, m') := by
  obtain ⟨s, hs, hx⟩ := h
  have hstep : (Thread.mk a callers).advance image m = .error e m' :=
    Exec.bind_error.mpr (.inl (Activation.step_of_exec_error hg hs hx he))
  exact runFor_of_error hstep fuel

lemma runFor_of_leave (hs : a.routine.code[a.pc]? = none) {w : Word}
    (h : a.routine.leave m = .ok w m') (fuel : Nat) :
    runFor image (fuel + 1) ⟨a, []⟩ m = (.value w, m') := by
  have hret : a.step image m = .ok .ret m := by
    rw [Activation.step_end hs]
    rfl
  have hstep : (Thread.mk a []).advance image m = .ok (.finished w) m' :=
    Exec.bind_ok.mpr ⟨_, _, hret, Exec.bind_ok.mpr ⟨w, m', h, rfl⟩⟩
  exact runFor_of_finished hstep fuel

end Thread

namespace Image

variable {image : Image} {m m' : Machine}

lemma run_of_start {t : Thread} (h : image.start m = .ok t m') (fuel : Nat) :
    image.run fuel m = t.runFor image fuel m' := by
  delta run
  rw [h]

lemma run_of_start_error {e : Fault} (h : image.start m = .error e m') (fuel : Nat) :
    image.run fuel m = (.fault e, m') := by
  delta run
  rw [h]

lemma run_add (fuel n : Nat) : image.run (fuel + n) m = image.resume n (image.run fuel m) := by
  cases hs : image.start m with
  | error e m₁ =>
    rw [run_of_start_error hs, run_of_start_error hs]
    rfl
  | ok t m₁ =>
    rw [run_of_start hs, run_of_start hs]
    exact Thread.runFor_add fuel n

end Image

end BlockLang
