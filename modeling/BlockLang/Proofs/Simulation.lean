import BlockLang.Proofs.Reach

/-! Linear code that carries out an action. The action works on an abstract state, which a relation
ties to the temporaries and the machine. A fault of the action shows either at once or in the values
that the code leaves to compute; an action that does not come to its end keeps the code running. -/

namespace BlockLang

open Code

/-- What links an abstract state to a running function. -/
structure Sim (σ : Type) where
  calls : Calls
  routine : Routine
  resolved : routine.Resolved
  -- Unfinished actions take at least this number of steps.
  fuel : Nat
  -- Temporaries from here on belong to the linear code alone.
  bound : Nat
  Rel : σ → Activation → Machine → Prop
  -- What is left of the link after a fault.
  Last : σ → Machine → Prop
  last_of_rel : ∀ {s a m}, Rel s a m → Last s m
  rel_congr : ∀ {s a b m}, Rel s a m →
    (∀ t : Temp, t.toNat < bound → b.temps[t]? = a.temps[t]?) → Rel s b m

lemma Activation.getElem?_setTemp (a : Activation) (t t' : Temp) (w : Word) :
    (a.setTemp t w).temps[t']? = if t = t' then some w else a.temps[t']? := by
  simp only [setTemp, Std.TreeMap.getElem?_insert, Std.LawfulEqOrd.compare_eq_iff_eq]

lemma Activation.eval_setTemp (a : Activation) (m : Machine) (t : Temp) (w : Word) :
    (a.setTemp t w).advance.eval m (.temp t) = .ok w := by
  have h : (a.setTemp t w).advance.temps[t]? = some w := by
    change (a.setTemp t w).temps[t]? = _
    rw [getElem?_setTemp, if_pos rfl]
  simp only [eval, h]

namespace Sim

variable {σ α β : Type} (S : Sim σ)

/-- From a running function, the code ends as the action does. -/
def Meets (a : Activation) (m : Machine) (post : α → σ → Activation → Machine → Prop)
    (late : Fault → σ → Activation → Machine → Prop) : Ending σ α → Prop
  | .done w s => ∃ k b m', Reach S.calls k a m b m' ∧ post w s b m'
  | .fault e s =>
    (∃ k b m' m'', Reach S.calls k a m b m' ∧ Faults S.calls b m' e m'' ∧ S.Last s m'') ∨
      ∃ k b m', Reach S.calls k a m b m' ∧ late e s b m'
  | .unfinished => ∃ k b m', S.fuel ≤ k ∧ Reach S.calls k a m b m'

variable {S} {a b c : Activation} {m m' : Machine}
variable {post : α → σ → Activation → Machine → Prop} {post' : β → σ → Activation → Machine → Prop}
variable {late late' : Fault → σ → Activation → Machine → Prop}

lemma rel_setTemp {s : σ} {t : Temp} (ht : S.bound ≤ t.toNat) (w : Word) (h : S.Rel s a m) :
    S.Rel s (a.setTemp t w).advance m := by
  refine S.rel_congr h fun t' ht' => ?_
  change (a.setTemp t w).temps[t']? = _
  rw [Activation.getElem?_setTemp, if_neg]
  rintro rfl
  omega

lemma Meets.after {k : Nat} {r : Ending σ α} (hr : Reach S.calls k a m b m')
    (h : S.Meets b m' post late r) : S.Meets a m post late r := by
  cases r with
  | done w s =>
    obtain ⟨j, c, m'', hj, hp⟩ := h
    exact ⟨_, c, m'', hr.trans hj, hp⟩
  | fault e s =>
    rcases h with ⟨j, c, m₁, m₂, hj, hf⟩ | ⟨j, c, m₁, hj, hl⟩
    · exact .inl ⟨_, c, m₁, m₂, hr.trans hj, hf⟩
    · exact .inr ⟨_, c, m₁, hr.trans hj, hl⟩
  | unfinished =>
    obtain ⟨j, c, m'', hk, hj⟩ := h
    exact ⟨k + j, c, m'', by omega, hr.trans hj⟩

lemma Meets.bind_done {x : Action σ α} {f : α → Action σ β} {s : σ}
    (h : S.Meets a m post late (x s))
    (hd : ∀ w s' k b m', x s = .done w s' → Reach S.calls k a m b m' → post w s' b m' →
      S.Meets b m' post' late' (f w s'))
    (hl : ∀ e s' k b m', Reach S.calls k a m b m' → late e s' b m' →
      S.Meets b m' post' late' (.fault e s')) :
    S.Meets a m post' late' ((x >>= f) s) := by
  cases hx : x s with
  | done w s' =>
    rw [hx] at h
    obtain ⟨k, b, m', hr, hp⟩ := h
    rw [Action.bind_done hx]
    exact .after hr (hd w s' k b m' hx hr hp)
  | fault e s' =>
    rw [hx] at h
    rw [Action.bind_fault hx]
    rcases h with ⟨k, b, m', m'', hf⟩ | ⟨k, b, m', hr, hl'⟩
    · exact .inl ⟨k, b, m', m'', hf⟩
    · exact .after hr (hl e s' k b m' hr hl')
  | unfinished =>
    rw [hx] at h
    rw [Action.bind_unfinished hx]
    exact h

lemma Meets.bind {x : Action σ α} {f : α → Action σ β} {s : σ} (h : S.Meets a m post late (x s))
    (hd : ∀ w s' k b m', Reach S.calls k a m b m' → post w s' b m' →
      S.Meets b m' post' late' (f w s'))
    (hl : ∀ e s' k b m', Reach S.calls k a m b m' → late e s' b m' →
      S.Meets b m' post' late' (.fault e s')) :
    S.Meets a m post' late' ((x >>= f) s) :=
  h.bind_done (fun w s' k b m' _ => hd w s' k b m') hl

lemma Meets.mono {late' : Fault → σ → Activation → Machine → Prop}
    {post' : α → σ → Activation → Machine → Prop} {r : Ending σ α} (h : S.Meets a m post late r)
    (hp : ∀ w s k b m', Reach S.calls k a m b m' → post w s b m' → post' w s b m')
    (hl : ∀ e s k b m', Reach S.calls k a m b m' → late e s b m' → late' e s b m') :
    S.Meets a m post' late' r := by
  cases r with
  | done w s =>
    obtain ⟨k, b, m', hr, h⟩ := h
    exact ⟨k, b, m', hr, hp w s k b m' hr h⟩
  | fault e s =>
    rcases h with h | ⟨k, b, m', hr, h⟩
    · exact .inl h
    · exact .inr ⟨k, b, m', hr, hl e s k b m' hr h⟩
  | unfinished => exact h

lemma Meets.now {s : σ} {w : α} (h : post w s a m) : S.Meets a m post late (.done w s) :=
  ⟨0, a, m, .refl, h⟩

lemma Meets.fault {s : σ} {e : Fault} (hf : Faults S.calls a m e m') (hl : S.Last s m') :
    S.Meets a m post late (.fault e s) :=
  .inl ⟨0, a, m, m', .refl, hf, hl⟩

lemma Meets.deferred {s : σ} {e : Fault} (h : late e s a m) : S.Meets a m post late (.fault e s) :=
  .inr ⟨0, a, m, .refl, h⟩

variable (S)

structure Arrives (a : Activation) (len lo hi : Nat) (b : Activation) : Prop where
  routine : b.routine = S.routine
  pc : b.pc = a.pc + len
  kept : ∀ t : Temp, S.bound ≤ t.toNat → t.toNat < lo ∨ hi ≤ t.toNat → b.temps[t]? = a.temps[t]?

variable {S}

namespace Arrives

variable {len len' lo hi lo' hi' : Nat}

lemma refl (hr : a.routine = S.routine) : S.Arrives a 0 lo hi a :=
  ⟨hr, rfl, fun _ _ _ => rfl⟩

lemma widen (h : S.Arrives a len lo hi b) (hl : lo' ≤ lo) (hh : hi ≤ hi') :
    S.Arrives a len lo' hi' b :=
  ⟨h.routine, h.pc, fun t hb ht => h.kept t hb (by omega)⟩

lemma trans (h : S.Arrives a len lo hi b) (h' : S.Arrives b len' lo hi c) :
    S.Arrives a (len + len') lo hi c :=
  ⟨h'.routine, by rw [h'.pc, h.pc, Nat.add_assoc],
    fun t hb ht => (h'.kept t hb ht).trans (h.kept t hb ht)⟩

lemma advance (hr : a.routine = S.routine) : S.Arrives a 1 lo hi a.advance :=
  ⟨hr, rfl, fun _ _ _ => rfl⟩

lemma setTemp (hr : a.routine = S.routine) {t : Temp}
    (ht : t.toNat < S.bound ∨ lo ≤ t.toNat ∧ t.toNat < hi) (w : Word) :
    S.Arrives a 1 lo hi (a.setTemp t w).advance := by
  refine ⟨hr, rfl, fun t' hb ht' => ?_⟩
  change (a.setTemp t w).temps[t']? = _
  rw [a.getElem?_setTemp, if_neg]
  rintro rfl
  omega

end Arrives

variable (S)

def Computes (x : Exp) (f : Action σ Word) : Prop :=
  ∀ (n : Temp) (a : Activation) (m : Machine) (s : σ),
    S.bound ≤ n.toNat → n.toNat + x.saves < UInt32.size → a.routine = S.routine →
    S.routine.At a.pc (x.operand n).before → S.Rel s a m →
    S.Meets a m
      (fun w s' b m' => S.Arrives a (x.operand n).before.length n.toNat (n.toNat + x.saves) b ∧
        S.Rel s' b m' ∧ b.eval m' (x.operand n).value = .ok w ∧
        (x.isPure = true → b = a ∧ m' = m))
      (fun e s' b m' => S.Arrives a (x.operand n).before.length n.toNat (n.toNat + x.saves) b ∧
        S.Last s' m' ∧ b.eval m' (x.operand n).value = .error e ∧
        (x.isPure = true → b = a ∧ m' = m) ∧ (x.operand n).value.discard ≠ [])
      (f s)

def ComputesAll (xs : List Exp) (f : Action σ (List Word)) : Prop :=
  ∀ (n : Temp) (a : Activation) (m : Machine) (s : σ),
    S.bound ≤ n.toNat → n.toNat + Exp.savesAll xs < UInt32.size → a.routine = S.routine →
    S.routine.At a.pc (Exp.splitAll xs n).before → S.Rel s a m →
    S.Meets a m
      (fun ws s' b m' =>
        S.Arrives a (Exp.splitAll xs n).before.length n.toNat (n.toNat + Exp.savesAll xs) b ∧
        S.Rel s' b m' ∧ b.evalAll m' (Exp.splitAll xs n).value = .ok ws ∧
        (xs.all Exp.isPure = true → b = a ∧ m' = m))
      (fun e s' b m' =>
        S.Arrives a (Exp.splitAll xs n).before.length n.toNat (n.toNat + Exp.savesAll xs) b ∧
        S.Last s' m' ∧ b.evalAll m' (Exp.splitAll xs n).value = .error e ∧
        (xs.all Exp.isPure = true → b = a ∧ m' = m))
      (f s)

def Performs (s : Stm) (f : Action σ Unit) : Prop :=
  ∀ (n : Temp) (a : Activation) (m : Machine) (st : σ),
    S.bound ≤ n.toNat → n.toNat + s.saves < UInt32.size → a.routine = S.routine →
    S.routine.At a.pc (s.flat n).code → S.Rel st a m →
    S.Meets a m
      (fun _ s' b m' => S.Arrives a (s.flat n).code.length n.toNat (n.toNat + s.saves) b ∧
        S.Rel s' b m')
      (fun _ _ _ _ => False)
      (f st)

variable {S}

lemma ComputesAll.nil : S.ComputesAll [] (pure []) := by
  intro n a m s _ _ hr _ hrel
  exact Meets.now ⟨Arrives.refl hr, hrel, rfl, fun _ => ⟨rfl, rfl⟩⟩

lemma evalAll_cons_ok {v : Exp} {vs : List Exp} {w : Word} {ws : List Word}
    (h : a.eval m v = .ok w) (hs : a.evalAll m vs = .ok ws) :
    a.evalAll m (v :: vs) = .ok (w :: ws) := by
  simp [Activation.evalAll, h, hs, bind, Except.bind, pure, Except.pure]

lemma evalAll_cons_error {v : Exp} {vs : List Exp} {e : Fault} (h : a.eval m v = .error e) :
    a.evalAll m (v :: vs) = .error e := by
  simp [Activation.evalAll, h, bind, Except.bind]

lemma evalAll_tail_error {v : Exp} {vs : List Exp} {w : Word} {e : Fault}
    (h : a.eval m v = .ok w) (hs : a.evalAll m vs = .error e) :
    a.evalAll m (v :: vs) = .error e := by
  simp [Activation.evalAll, h, hs, bind, Except.bind]

lemma evalAll_cons_ok_iff {v : Exp} {vs : List Exp} {ws : List Word} :
    a.evalAll m (v :: vs) = .ok ws ↔
      ∃ w ws', ws = w :: ws' ∧ a.eval m v = .ok w ∧ a.evalAll m vs = .ok ws' := by
  cases hv : a.eval m v with
  | error e => simp [Activation.evalAll, hv, bind, Except.bind]
  | ok w =>
    cases hs : a.evalAll m vs with
    | error e => simp [Activation.evalAll, hv, hs, bind, Except.bind]
    | ok ws' => simp [Activation.evalAll, hv, hs, bind, Except.bind, pure, Except.pure, eq_comm]

lemma evalAll_cons_error_iff {v : Exp} {vs : List Exp} {e : Fault} :
    a.evalAll m (v :: vs) = .error e ↔
      a.eval m v = .error e ∨ ∃ w, a.eval m v = .ok w ∧ a.evalAll m vs = .error e := by
  cases hv : a.eval m v with
  | error e => simp [Activation.evalAll, hv, bind, Except.bind]
  | ok w =>
    cases hs : a.evalAll m vs with
    | error e => simp [Activation.evalAll, hv, hs, bind, Except.bind]
    | ok ws' => simp [Activation.evalAll, hv, hs, bind, Except.bind, pure, Except.pure]

variable {x : Exp} {xs : List Exp} {f : Action σ Word} {g : Action σ (List Word)}

lemma ComputesAll.after_head (hxs : S.ComputesAll xs g) {n : Temp} {v : Exp} {w : Word} {s : σ}
    (hb : S.bound ≤ n.toNat) (hw : n.toNat + Exp.savesAll xs < UInt32.size)
    (hr : b.routine = S.routine) (hat : S.routine.At b.pc (Exp.splitAll xs n).before)
    (hrel : S.Rel s b m)
    (hv : ∀ k c m', Reach S.calls k b m c m' →
      S.Arrives b (Exp.splitAll xs n).before.length n.toNat (n.toNat + Exp.savesAll xs) c →
      (xs.all Exp.isPure = true → c = b ∧ m' = m) → c.eval m' v = .ok w) :
    S.Meets b m
      (fun ws s' c m' =>
        S.Arrives b (Exp.splitAll xs n).before.length n.toNat (n.toNat + Exp.savesAll xs) c ∧
        S.Rel s' c m' ∧ c.evalAll m' (v :: (Exp.splitAll xs n).value) = .ok ws ∧
        (xs.all Exp.isPure = true → c = b ∧ m' = m))
      (fun e s' c m' =>
        S.Arrives b (Exp.splitAll xs n).before.length n.toNat (n.toNat + Exp.savesAll xs) c ∧
        S.Last s' m' ∧ c.evalAll m' (v :: (Exp.splitAll xs n).value) = .error e ∧
        (xs.all Exp.isPure = true → c = b ∧ m' = m))
      ((do return w :: (← g) : Action σ (List Word)) s) := by
  refine Meets.bind (hxs n b m s hb hw hr hat hrel) ?_ ?_
  · rintro ws s' k c m' hk ⟨ha, hs, he, hp⟩
    exact Meets.now ⟨ha, hs, evalAll_cons_ok (hv k c m' hk ha hp) he, hp⟩
  · rintro e s' k c m' hk ⟨ha, hs, he, hp⟩
    exact Meets.deferred ⟨ha, hs, evalAll_tail_error (hv k c m' hk ha hp) he, hp⟩

lemma Computes.cons_of_isPure (hx : S.Computes x f) (hxs : S.ComputesAll xs g)
    (hp : xs.all Exp.isPure = true) :
    S.ComputesAll (x :: xs) (do return (← f) :: (← g)) := by
  intro n a m s hb hw hr hat hrel
  have hs := Exp.splitAll_of_isPure n hp
  have hc : Exp.splitAll (x :: xs) n =
      ⟨(x.operand n).before, (x.operand n).value :: xs, (x.operand n).next⟩ := by
    simp [Exp.splitAll_cons, hs, hp, Split.cons]
  have hn : Exp.savesAll (x :: xs) = x.saves := by
    simp [Exp.savesAll_cons, Exp.savesAll_of_isPure hp, hp]
  rw [hc] at hat
  rw [hn] at hw
  rw [hc, hn]
  refine Meets.bind (hx n a m s hb hw hr hat hrel) ?_ ?_
  · rintro w s' k b m' hk ⟨ha, hs', he, hpx⟩
    have ht := hxs.after_head (v := (x.operand n).value) (w := w) hb
      (by rw [Exp.savesAll_of_isPure hp]; omega) ha.routine (by simp [hs]) hs'
      (fun _ c m'' _ _ h => by obtain ⟨rfl, rfl⟩ := h hp; exact he)
    rw [hs, Exp.savesAll_of_isPure hp] at ht
    refine ht.mono ?_ ?_
    · rintro ws s'' _ c m'' - ⟨-, hs'', hv, h⟩
      obtain ⟨rfl, rfl⟩ := h hp
      refine ⟨ha, hs'', hv, fun h' => hpx (by simp_all)⟩
    · rintro e s'' _ c m'' - ⟨-, hs'', hv, h⟩
      obtain ⟨rfl, rfl⟩ := h hp
      refine ⟨ha, hs'', hv, fun h' => hpx (by simp_all)⟩
  · rintro e s' k b m' - ⟨ha, hs', he, hpx, -⟩
    exact Meets.deferred ⟨ha, hs', evalAll_cons_error he, fun h' => hpx (by simp_all)⟩

lemma eval_of_isConstant {v : Exp} (hv : v.isConstant = true)
    (hn : ∀ l, m'.nameValue l = m.nameValue l) : c.eval m' v = b.eval m v := by
  cases v with
  | const w => rfl
  | name l => exact hn l
  | _ => cases hv

lemma discard_of_isConstant {v : Exp} (hv : v.isConstant = true) : v.discard = [] := by
  cases v <;> first | rfl | cases hv

lemma Computes.cons_of_isFixed (hx : S.Computes x f) (hxs : S.ComputesAll xs g)
    (hp : xs.all Exp.isPure = false) (hf : x.isFixed = true) :
    S.ComputesAll (x :: xs) (do return (← f) :: (← g)) := by
  intro n a m s hb hw hr hat hrel
  have hv : (x.operand (Exp.splitAll xs n).next).value.isConstant = true := by
    rw [Exp.operand_value_isConstant, hf]
  have hc : Exp.splitAll (x :: xs) n =
      .cons (x.operand (Exp.splitAll xs n).next) (Exp.splitAll xs n) := by
    rw [Exp.splitAll_cons, Split.hold_of_isConstant _ hv]
  have hn : Exp.savesAll (x :: xs) = Exp.savesAll xs + x.saves := by
    simp [Exp.savesAll_cons, hf]
  have ht : (Exp.splitAll xs n).next.toNat = n.toNat + Exp.savesAll xs := by
    rw [Exp.splitAll_next, Ident.toNat_advance_of_lt (by omega)]
  simp only [hc, Split.cons, Routine.at_append] at hat
  have himp : (x :: xs).all Exp.isPure = true → False := by simp_all
  rw [hc, hn]
  simp only [Split.cons, List.length_append]
  refine Meets.bind (hx _ a m s (by omega) (by omega) hr hat.1 hrel) ?_ ?_
  · rintro w s' k b m' hk ⟨ha, hs', he, -⟩
    refine (hxs.after_head hb (by omega) ha.routine (by rw [ha.pc]; exact hat.2) hs'
      (fun _ c m'' hk' _ _ => (eval_of_isConstant hv hk'.nameValue).trans he)).mono ?_ ?_
    · rintro ws s'' _ c m'' - ⟨ha', hs'', hv', -⟩
      exact ⟨(ha.widen (by omega) (by omega)).trans (ha'.widen (by omega) (by omega)), hs'', hv',
        fun h => (himp h).elim⟩
    · rintro e s'' _ c m'' - ⟨ha', hs'', hv', -⟩
      exact ⟨(ha.widen (by omega) (by omega)).trans (ha'.widen (by omega) (by omega)), hs'', hv',
        fun h => (himp h).elim⟩
  · rintro e s' k b m' - ⟨-, -, -, -, hd⟩
    exact (hd (discard_of_isConstant hv)).elim

lemma Computes.cons_of_save (hx : S.Computes x f) (hxs : S.ComputesAll xs g)
    (hp : xs.all Exp.isPure = false) (hf : x.isFixed = false) :
    S.ComputesAll (x :: xs) (do return (← f) :: (← g)) := by
  intro n a m s hb hw hr hat hrel
  have hv : (x.operand (Exp.splitAll xs n).next).value.isConstant = false := by
    rw [Exp.operand_value_isConstant, hf]
  have hc : Exp.splitAll (x :: xs) n =
      .cons (x.operand (Exp.splitAll xs n).next).save (Exp.splitAll xs n) := by
    rw [Exp.splitAll_cons, hp]
    exact congrArg (Split.cons · _) (Split.hold_true hv)
  have hn : Exp.savesAll (x :: xs) = Exp.savesAll xs + (x.saves + 1) := by
    rw [Exp.savesAll_cons, hp, hf]
    rfl
  rw [hn] at hw
  have ht : (Exp.splitAll xs n).next.toNat = n.toNat + Exp.savesAll xs := by
    rw [Exp.splitAll_next, Ident.toNat_advance_of_lt (by omega)]
  have ht' : (x.operand (Exp.splitAll xs n).next).next.toNat =
      n.toNat + Exp.savesAll xs + x.saves := by
    rw [Exp.operand_next, Ident.toNat_advance_of_lt (by omega), ht]
  simp only [hc, Split.cons, Split.save, Routine.at_append, Routine.at_cons, Routine.at_nil,
    and_true, List.length_append, List.length_cons, List.length_nil] at hat
  obtain ⟨⟨hat, hmove⟩, hat'⟩ := hat
  have himp : (x :: xs).all Exp.isPure = true → False := by simp_all
  rw [hc, hn]
  simp only [Split.cons, Split.save, List.length_append, List.length_cons, List.length_nil]
  generalize (x.operand (Exp.splitAll xs n).next).next = t at *
  refine Meets.bind (hx _ a m s (by omega) (by omega) hr hat hrel) ?_ ?_
  · rintro w s' k b m' hk ⟨ha, hs', he, -⟩
    have hstep : Reach S.calls 1 b m' (b.setTemp t w).advance m' :=
      .single (by rw [ha.routine, ha.pc]; exact hmove)
        (Activation.exec_move_temp (Exp.operand_value_isPure _ _) he t)
    have hset : S.Arrives b 1 n.toNat (n.toNat + (Exp.savesAll xs + (x.saves + 1)))
        (b.setTemp t w).advance :=
      Arrives.setTemp ha.routine (.inr (by omega)) w
    have hrel' : S.Rel s' (b.setTemp t w).advance m' := rel_setTemp (by omega) w hs'
    have ha' := (ha.widen (by omega) (by omega)).trans hset
    refine Meets.after hstep ((hxs.after_head (v := .temp t) (w := w) hb (by omega)
      ha'.routine (by rw [ha'.pc]; exact hat') hrel' ?_).mono ?_ ?_)
    · intro _ c m'' _ hc' _
      have hk := hc'.kept t (by omega) (.inr (by omega))
      have hw' := Activation.eval_setTemp b m'' t w
      simp only [Activation.eval, hk] at hw' ⊢
      exact hw'
    · rintro ws s'' _ c m'' - ⟨hc', hs'', hv', -⟩
      exact ⟨ha'.trans (hc'.widen (by omega) (by omega)), hs'', hv', fun h => (himp h).elim⟩
    · rintro e s'' _ c m'' - ⟨hc', hs'', hv', -⟩
      exact ⟨ha'.trans (hc'.widen (by omega) (by omega)), hs'', hv', fun h => (himp h).elim⟩
  · rintro e s' k b m' - ⟨ha, hs', he, -, -⟩
    refine Meets.fault ⟨_, by rw [ha.routine, ha.pc]; exact hmove, ?_⟩ hs'
    exact Activation.exec_move_temp_error (Exp.operand_value_isPure _ _) he t

lemma Computes.cons (hx : S.Computes x f) (hxs : S.ComputesAll xs g) :
    S.ComputesAll (x :: xs) (do return (← f) :: (← g)) := by
  cases hp : xs.all Exp.isPure with
  | true => exact hx.cons_of_isPure hxs hp
  | false =>
    cases hf : x.isFixed with
    | true => exact hx.cons_of_isFixed hxs hp hf
    | false => exact hx.cons_of_save hxs hp hf

variable (S)

def Gives (a : Activation) (m : Machine) (v : Exp) : Ending σ Word → Prop
  | .done w s => S.Rel s a m ∧ a.eval m v = .ok w
  | .fault e s => S.Last s m ∧ a.eval m v = .error e ∧ v.discard ≠ []
  | .unfinished => S.fuel = 0

variable {S}

lemma Computes.of_isPure (hx : x.isPure = true)
    (h : ∀ a m s, a.routine = S.routine → S.Rel s a m → S.Gives a m x (f s)) : S.Computes x f := by
  intro n a m s _ _ hr _ hrel
  have hg := h a m s hr hrel
  rw [Exp.operand_of_isPure n hx]
  cases he : f s with
  | done w s' =>
    rw [he] at hg
    exact Meets.now ⟨Arrives.refl hr, hg.1, hg.2, fun _ => ⟨rfl, rfl⟩⟩
  | fault e s' =>
    rw [he] at hg
    exact Meets.deferred ⟨Arrives.refl hr, hg.1, hg.2.1, fun _ => ⟨rfl, rfl⟩, hg.2.2⟩
  | unfinished =>
    rw [he] at hg
    exact ⟨0, a, m, Nat.le_of_eq hg, .refl⟩

lemma Computes.of_all {h : List Word → Action σ Word} (hxs : S.ComputesAll xs g)
    (hbefore : ∀ n, (x.operand n).before = (Exp.splitAll xs n).before)
    (hsaves : x.saves = Exp.savesAll xs) (hpure : x.isPure = true → xs.all Exp.isPure = true)
    (hdiscard : ∀ n, (x.operand n).value.discard ≠ [])
    (herror : ∀ (n : Temp) (b : Activation) (m : Machine) (e : Fault), b.evalAll m (Exp.splitAll xs n).value = .error e →
      b.eval m (x.operand n).value = .error e)
    (hok : ∀ n b m s ws, S.Rel s b m → b.evalAll m (Exp.splitAll xs n).value = .ok ws →
      S.Gives b m (x.operand n).value (h ws s)) :
    S.Computes x (g >>= h) := by
  intro n a m s hb hw hr hat hrel
  rw [hsaves] at hw ⊢
  rw [hbefore] at hat ⊢
  refine Meets.bind (hxs n a m s hb hw hr hat hrel) ?_ ?_
  · rintro ws s' k b m' - ⟨ha, hs', he, hp⟩
    have hg := hok n b m' s' ws hs' he
    cases hh : h ws s' with
    | done w s'' =>
      rw [hh] at hg
      exact Meets.now ⟨ha, hg.1, hg.2, fun hx => hp (hpure hx)⟩
    | fault e s'' =>
      rw [hh] at hg
      exact Meets.deferred ⟨ha, hg.1, hg.2.1, fun hx => hp (hpure hx), hg.2.2⟩
    | unfinished =>
      rw [hh] at hg
      exact ⟨0, b, m', Nat.le_of_eq hg, .refl⟩
  · rintro e s' k b m' - ⟨ha, hs', he, hp⟩
    exact Meets.deferred ⟨ha, hs', herror n b m' e he, fun hx => hp (hpure hx), hdiscard n⟩

lemma Computes.single (hx : S.Computes x f) : S.ComputesAll [x] (do return [← f]) := by
  have h := hx.cons ComputesAll.nil
  simpa using h

lemma Computes.pair {y : Exp} {f' : Action σ Word} (hx : S.Computes x f) (hy : S.Computes y f') :
    S.ComputesAll [x, y] (do return [← f, ← f']) := by
  have h := hx.cons hy.single
  simpa using h

lemma gives_binop {op : Op} {u v : Exp} {x y : Word} {s : σ} (hrel : S.Rel s a m)
    (hu : a.eval m u = .ok x) (hv : a.eval m v = .ok y) :
    S.Gives a m (.binop op u v) (Action.compute op x y s) := by
  unfold Action.compute
  cases h : op.apply x y with
  | some w => exact ⟨hrel, by simp [Activation.eval, hu, hv, h, bind, Except.bind]⟩
  | none =>
    exact ⟨S.last_of_rel hrel, by simp [Activation.eval, hu, hv, h, bind, Except.bind],
      by simp [Exp.discard]⟩

lemma Computes.binop {y : Exp} {f' : Action σ Word} {op : Op} {run : Word → Word → Action σ Word}
    (hx : S.Computes x f) (hy : S.Computes y f')
    (hrun : ∀ a m s i j, S.Rel s a m → ∀ u v : Exp, a.eval m u = .ok i → a.eval m v = .ok j →
      S.Gives a m (.binop op u v) (run i j s)) :
    S.Computes (.binop op x y) (do run (← f) (← f')) := by
  have h : S.Computes (.binop op x y) ((do return [← f, ← f']) >>= fun ws =>
      run (ws.getD 0 0) (ws.getD 1 0)) := by
    refine Computes.of_all (hx.pair hy) ?_ ?_ ?_ ?_ ?_ ?_
    · intro n
      rw [Exp.splitAll_pair, Exp.operand_binop]
    · simp [Exp.saves, Exp.rootSaves, Exp.savesAll, Exp.isCall]
    · intro hp
      simpa [Exp.isPure] using hp
    · intro n
      simp [Exp.operand_binop, Exp.discard]
    · intro n b m e he
      rw [Exp.splitAll_pair, evalAll_cons_error_iff] at he
      rw [Exp.operand_binop]
      rcases he with he | ⟨u, hu, he⟩
      · simp [Activation.eval, he, bind, Except.bind]
      · rw [evalAll_cons_error_iff] at he
        rcases he with he | ⟨v, -, he⟩
        · simp [Activation.eval, hu, he, bind, Except.bind]
        · cases he
    · intro n b m s ws hrel hws
      rw [Exp.splitAll_pair] at hws
      simp only [evalAll_cons_ok_iff] at hws
      obtain ⟨u, _, rfl, hu, v, _, rfl, hv, -⟩ := hws
      rw [Exp.operand_binop]
      exact hrun b m s u v hrel _ _ hu hv
  simpa using h

lemma Computes.compute {y : Exp} {f' : Action σ Word} (op : Op) (hx : S.Computes x f)
    (hy : S.Computes y f') : S.Computes (.binop op x y) (do Action.compute op (← f) (← f')) :=
  hx.binop hy fun _ _ _ _ _ hrel _ _ hu hv => gives_binop hrel hu hv

lemma Computes.mem {get : Word → Action σ Word} (hx : S.Computes x f)
    (hget : ∀ a m s w, S.Rel s a m → ∀ v : Exp, a.eval m v = .ok w →
      S.Gives a m (.mem v) (get w s)) :
    S.Computes (.mem x) (do get (← f)) := by
  have h : S.Computes (.mem x) ((do return [← f]) >>= fun ws => get (ws.getD 0 0)) := by
    refine Computes.of_all hx.single ?_ ?_ ?_ ?_ ?_ ?_
    · intro n
      rw [Exp.splitAll_singleton, Exp.operand_mem]
    · simp [Exp.saves, Exp.rootSaves, Exp.savesAll, Exp.isCall]
    · intro hp
      simpa [Exp.isPure] using hp
    · intro n
      simp [Exp.operand_mem, Exp.discard]
    · intro n b m e he
      rw [Exp.splitAll_singleton, evalAll_cons_error_iff] at he
      rw [Exp.operand_mem]
      rcases he with he | ⟨u, -, he⟩
      · simp [Activation.eval, he, bind, Except.bind]
      · cases he
    · intro n b m s ws hrel hws
      rw [Exp.splitAll_singleton] at hws
      simp only [evalAll_cons_ok_iff] at hws
      obtain ⟨u, _, rfl, hu, -⟩ := hws
      rw [Exp.operand_mem]
      exact hget b m s u hrel _ hu
  simpa using h

variable {s : Stm} {p : Action σ Unit}

lemma Computes.eseq (hs : S.Performs s p) (hx : S.Computes x f) :
    S.Computes (.eseq s x) (do p; f) := by
  intro n a m st hb hw hr hat hrel
  have hn := Exp.saves_eseq s x
  have hnext : (s.flat n).next.toNat = n.toNat + s.saves := by
    rw [Stm.flat_next, Ident.toNat_advance_of_lt (by omega)]
  rw [hn] at hw ⊢
  rw [Exp.operand_eseq] at hat ⊢
  simp only [Routine.at_append] at hat
  simp only [List.length_append]
  refine Meets.bind (hs n a m st hb (by omega) hr hat.1 hrel) ?_ (fun _ _ _ _ _ _ h => h.elim)
  rintro - s' k b m' - ⟨ha, hs'⟩
  refine (hx (s.flat n).next b m' s' (by omega) (by omega) ha.routine
    (by rw [ha.pc]; exact hat.2) hs').mono ?_ ?_
  · rintro w s'' _ c m'' - ⟨hc, hs'', hv, -⟩
    exact ⟨(ha.widen (by omega) (by omega)).trans (hc.widen (by omega) (by omega)), hs'', hv,
      fun h => nomatch h⟩
  · rintro e s'' _ c m'' - ⟨hc, hs'', hv, -, hd⟩
    exact ⟨(ha.widen (by omega) (by omega)).trans (hc.widen (by omega) (by omega)), hs'', hv,
      (fun h => nomatch h), hd⟩

lemma discard_cases (v : Exp) : v.discard = [] ∨ v.discard = [.exp v] := by
  cases v <;> simp [Exp.discard]

lemma Performs.exp (hc : x.isCall = false) (hx : S.Computes x f) :
    S.Performs (.exp x) (do let _ ← f) := by
  intro n a m st hb hw hr hat hrel
  have hn := Stm.saves_exp hc
  rw [hn] at hw ⊢
  rw [Stm.flat_exp n hc] at hat ⊢
  simp only [Routine.at_append] at hat
  simp only [List.length_append]
  refine Meets.bind (hx n a m st hb hw hr hat.1 hrel) ?_ ?_
  · rintro w s' k b m' - ⟨ha, hs', he, -⟩
    rcases discard_cases (x.operand n).value with hd | hd
    · rw [hd]
      exact Meets.now ⟨ha, hs'⟩
    · rw [hd] at hat ⊢
      have hstep : Reach S.calls 1 b m' b.advance m' :=
        .single (by rw [ha.routine, ha.pc]; exact hat.2.1)
          (Activation.exec_exp (x.operand_value_isPure n) he)
      exact Meets.after hstep
        (Meets.now ⟨ha.trans (Arrives.advance ha.routine), S.rel_congr hs' fun _ _ => rfl⟩)
  · rintro e s' k b m' - ⟨ha, hs', he, -, hd⟩
    rw [(discard_cases (x.operand n).value).resolve_left hd] at hat
    exact Meets.fault ⟨_, by rw [ha.routine, ha.pc]; exact hat.2.1,
      Activation.exec_exp_error (x.operand_value_isPure n) he⟩ hs'

lemma Performs.seq_nil : S.Performs (.seq []) (pure ()) := by
  intro n a m st _ _ hr _ hrel
  exact Meets.now ⟨Arrives.refl hr, hrel⟩

lemma Performs.seq_cons {ss : List Stm} {q : Action σ Unit} (hs : S.Performs s p)
    (hss : S.Performs (.seq ss) q) : S.Performs (.seq (s :: ss)) (do p; q) := by
  intro n a m st hb hw hr hat hrel
  have hn : (Stm.seq (s :: ss)).saves = s.saves + (Stm.seq ss).saves := rfl
  have hnext : (s.flat n).next.toNat = n.toNat + s.saves := by
    rw [Stm.flat_next, Ident.toNat_advance_of_lt (by omega)]
  rw [hn] at hw ⊢
  rw [Stm.flat_seq_cons] at hat ⊢
  simp only [Routine.at_append] at hat
  simp only [List.length_append]
  refine Meets.bind (hs n a m st hb (by omega) hr hat.1 hrel) ?_ (fun _ _ _ _ _ _ h => h.elim)
  rintro - s' k b m' - ⟨ha, hs'⟩
  refine (hss (s.flat n).next b m' s' (by omega) (by omega) ha.routine
    (by rw [ha.pc]; exact hat.2) hs').mono ?_ (fun _ _ _ _ _ _ h => h)
  rintro - s'' _ c m'' - ⟨hc, hs''⟩
  exact ⟨(ha.widen (by omega) (by omega)).trans (hc.widen (by omega) (by omega)), hs''⟩

variable (S)

def Changes (a : Activation) (r : EStateM.Result Fault Machine α) : Ending σ α → Prop
  | .done w s => ∃ m', r = .ok w m' ∧ S.Rel s a m'
  | .fault e s => ∃ m', r = .error e m' ∧ S.Last s m'
  | .unfinished => S.fuel = 0

variable {S}

lemma Performs.move_mem {d : Exp} {f' : Action σ Word} {put : Word → Word → Action σ Unit}
    (hd : S.Computes d f) (hx : S.Computes x f')
    (hput : ∀ a m s u w, (∃ s₀ s₁, f s₀ = .done u s₁) → S.Rel s a m →
      S.Changes a (Machine.store u.toInt w m) (put u w s)) :
    S.Performs (.move (.mem d) x) (do put (← f) (← f')) := by
  have h : S.Performs (.move (.mem d) x)
      ((do return [← f, ← f']) >>= fun ws => put (ws.getD 0 0) (ws.getD 1 0)) := by
    intro n a m st hb hw hr hat hrel
    have hn : (Stm.move (.mem d) x).saves = Exp.savesAll [d, x] := by
      simp [Stm.saves, Exp.savesInto, Exp.savesAll]
    rw [hn] at hw ⊢
    have hflat : ((Stm.move (.mem d) x).flat n).code = (Exp.splitAll [d, x] n).before ++
        [.move (.mem ((d.operand (x.operand n).next).hold !x.isPure).value)
          (x.operand n).value] := by
      rw [Exp.splitAll_pair]
      rfl
    have hvalue : (Exp.splitAll [d, x] n).value =
        [((d.operand (x.operand n).next).hold !x.isPure).value, (x.operand n).value] := by
      rw [Exp.splitAll_pair]
    rw [hflat] at hat ⊢
    simp only [Routine.at_append, Routine.at_cons, Routine.at_nil, and_true] at hat
    simp only [List.length_append, List.length_cons, List.length_nil]
    refine Meets.bind_done (hd.pair hx n a m st hb hw hr hat.1 hrel) ?_ ?_
    · rintro ws s' k b m' hpair - ⟨ha, hs', he, -⟩
      rw [hvalue] at he
      simp only [evalAll_cons_ok_iff] at he
      obtain ⟨u, _, rfl, hu, w, _, rfl, hw', -⟩ := he
      have hfu : ∃ s₀ s₁, f s₀ = .done u s₁ := by
        obtain ⟨u', s₁, hu', h⟩ := Action.bind_eq_done.mp hpair
        obtain ⟨w', s₂, -, h⟩ := Action.bind_eq_done.mp h
        simp only [pure, Ending.done.injEq, List.cons.injEq] at h
        exact ⟨st, s₁, h.1.1 ▸ hu'⟩
      have hcode : b.routine.code[b.pc]? = some (.move
          (.mem ((d.operand (x.operand n).next).hold !x.isPure).value) (x.operand n).value) := by
        rw [ha.routine, ha.pc]
        exact hat.2
      have hc := hput b m' s' u w hfu hs'
      change S.Meets b m' _ _ (put u w s')
      cases hp : put u w s' with
      | done r s'' =>
        rw [hp] at hc
        obtain ⟨m'', hst, hs''⟩ := hc
        have hstep : Reach S.calls 1 b m' b.advance m'' :=
          .single hcode (Activation.exec_move_mem (x.operand_value_isPure n) hu hw' hst)
        exact Meets.after hstep
          (Meets.now ⟨ha.trans (Arrives.advance ha.routine), S.rel_congr hs'' fun _ _ => rfl⟩)
      | fault e s'' =>
        rw [hp] at hc
        obtain ⟨m'', hst, hs''⟩ := hc
        exact Meets.fault ⟨_, hcode,
          Activation.exec_move_mem_store_error (x.operand_value_isPure n) hu hw' hst⟩ hs''
      | unfinished =>
        rw [hp] at hc
        exact ⟨0, b, m', Nat.le_of_eq hc, .refl⟩
    · rintro e s' k b m' - ⟨ha, hs', he, -⟩
      rw [hvalue, evalAll_cons_error_iff] at he
      have hcode : b.routine.code[b.pc]? = some (.move
          (.mem ((d.operand (x.operand n).next).hold !x.isPure).value) (x.operand n).value) := by
        rw [ha.routine, ha.pc]
        exact hat.2
      rcases he with he | ⟨u, hu, he⟩
      · exact Meets.fault ⟨_, hcode,
          Activation.exec_move_mem_address_error (x.operand_value_isPure n) he⟩ hs'
      · rcases evalAll_cons_error_iff.mp he with he | ⟨w, -, he⟩
        · exact Meets.fault ⟨_, hcode,
            Activation.exec_move_mem_value_error (x.operand_value_isPure n) hu he⟩ hs'
        · cases he
  simpa using h

lemma Performs.of_flat {s' : Stm} (hflat : ∀ n, s'.flat n = s.flat n) (hsaves : s'.saves = s.saves)
    (hs : S.Performs s p) : S.Performs s' p := by
  intro n a m st hb hw hr hat hrel
  rw [hflat] at hat ⊢
  rw [hsaves] at hw ⊢
  exact hs n a m st hb hw hr hat hrel

lemma Computes.of_operand {x' : Exp} (hoperand : ∀ n, x'.operand n = x.operand n)
    (hsaves : x'.saves = x.saves) (hpure : x'.isPure = x.isPure) (hx : S.Computes x f) :
    S.Computes x' f := by
  intro n a m s hb hw hr hat hrel
  rw [hoperand] at hat ⊢
  rw [hsaves] at hw ⊢
  rw [hpure]
  exact hx n a m s hb hw hr hat hrel

lemma Performs.seq_append {ss : List Stm} {q : Action σ Unit} (hss : S.Performs (.seq ss) q)
    (hs : S.Performs s p) : S.Performs (.seq (ss ++ [s])) (do q; p) := by
  have h := hss.seq_cons (hs.seq_cons Performs.seq_nil)
  simp only [bind_pure_unit] at h
  refine h.of_flat (fun n => ?_) ?_
  · rw [Stm.flat_seq_append]
    simp [Stm.flat_seq_cons, Stm.flat_seq_nil]
  · simp [Stm.saves_seq_append, Stm.saves_seq_cons]

lemma Performs.move_eseq {s' : Stm} {d : Exp} {q : Action σ Unit} (hs : S.Performs s' q)
    (hd : S.Performs (.move d x) p) : S.Performs (.move (.eseq s' d) x) (do q; p) := by
  have h := hs.seq_cons (hd.seq_cons Performs.seq_nil)
  simp only [bind_pure_unit] at h
  refine h.of_flat (fun n => ?_) ?_
  · rw [Stm.flat_move_eseq]
    simp [Stm.flat_seq_cons, Stm.flat_seq_nil]
  · simp [Stm.saves, Exp.savesInto, Stm.savesAll]

lemma Performs.move_temp {t : Temp} {put : Word → Action σ Unit} (ht : t.toNat < S.bound)
    (hc : x.isCall = false) (hx : S.Computes x f)
    (hput : ∀ a m s w, S.Rel s a m → ∃ s', put w s = .done () s' ∧ S.Rel s' (a.setTemp t w) m) :
    S.Performs (.move (.temp t) x) (do put (← f)) := by
  intro n a m st hb hw hr hat hrel
  have hn := Stm.saves_move_temp t hc
  rw [hn] at hw ⊢
  rw [Stm.flat_move_temp t n hc] at hat ⊢
  simp only [Routine.at_append, Routine.at_cons, Routine.at_nil, and_true] at hat
  simp only [List.length_append, List.length_cons, List.length_nil]
  refine Meets.bind (hx n a m st hb hw hr hat.1 hrel) ?_ ?_
  · rintro w s' k b m' - ⟨ha, hs', he, -⟩
    obtain ⟨s'', hp, hs''⟩ := hput b m' s' w hs'
    have hstep : Reach S.calls 1 b m' (b.setTemp t w).advance m' :=
      .single (by rw [ha.routine, ha.pc]; exact hat.2)
        (Activation.exec_move_temp (x.operand_value_isPure n) he t)
    rw [hp]
    exact Meets.after hstep (Meets.now
      ⟨ha.trans (Arrives.setTemp ha.routine (.inl ht) w), S.rel_congr hs'' fun _ _ => rfl⟩)
  · rintro e s' k b m' - ⟨ha, hs', he, -, -⟩
    exact Meets.fault ⟨_, by rw [ha.routine, ha.pc]; exact hat.2,
      Activation.exec_move_temp_error (x.operand_value_isPure n) he t⟩ hs'

structure CallsOnce (calls : Calls) (stm : Stm) (l : Label) (args : List Exp)
    (next : Word → Activation → Activation) : Prop where
  ok : ∀ {a : Activation} {m m' : Machine} {ws : List Word} {w : Word},
    a.evalAll m args = .ok ws → calls.run l ws m = .ok w m' → a.exec calls stm m = .ok (next w a) m'
  fault : ∀ {a : Activation} {m m' : Machine} {ws : List Word} {e : Fault},
    a.evalAll m args = .ok ws → calls.run l ws m = .error e m' → a.exec calls stm m = .error e m'
  args : ∀ {a : Activation} {m : Machine} {e : Fault},
    a.evalAll m args = .error e → a.exec calls stm m = .error e m

lemma callsOnce_move {calls : Calls} {l : Label} {args : List Exp} (t : Temp) :
    CallsOnce calls (.move (.temp t) (.call l args)) l args fun w a => (a.setTemp t w).advance :=
  ⟨fun ha h => Activation.exec_move_call ha h t, fun ha h => Activation.exec_move_call_error ha h t,
    fun ha => Activation.exec_move_args_error ha t⟩

lemma callsOnce_exp {calls : Calls} {l : Label} {args : List Exp} :
    CallsOnce calls (.exp (.call l args)) l args fun _ a => a.advance :=
  ⟨Activation.exec_exp_call, Activation.exec_exp_call_error, Activation.exec_exp_args_error⟩

section Call

variable {l : Label} {run : List Word → Action σ Word}

lemma ComputesAll.call_meets (hxs : S.ComputesAll xs g) {n : Temp} {st : σ} {stm : Stm}
    {next : Word → Activation → Activation}
    (hstm : CallsOnce S.calls stm l (Exp.splitAll xs n).value next)
    (hcall : ∀ a m s ws, S.Rel s a m → S.Changes a (S.calls.run l ws m) (run ws s))
    (hb : S.bound ≤ n.toNat) (hw : n.toNat + Exp.savesAll xs < UInt32.size)
    (hr : a.routine = S.routine) (hat : S.routine.At a.pc ((Exp.splitAll xs n).before ++ [stm]))
    (hrel : S.Rel st a m) :
    S.Meets a m
      (fun w s' c m' => ∃ b, c = next w b ∧ S.Rel s' b m' ∧
        S.Arrives a (Exp.splitAll xs n).before.length n.toNat (n.toNat + Exp.savesAll xs) b)
      (fun _ _ _ _ => False) ((g >>= run) st) := by
  simp only [Routine.at_append, Routine.at_cons, Routine.at_nil, and_true] at hat
  refine Meets.bind (hxs n a m st hb hw hr hat.1 hrel) ?_ ?_
  · rintro ws s' k b m' - ⟨ha, hs', he, -⟩
    have hcode : b.routine.code[b.pc]? = some stm := by
      rw [ha.routine, ha.pc]
      exact hat.2
    have hc := hcall b m' s' ws hs'
    cases hp : run ws s' with
    | done w s'' =>
      rw [hp] at hc
      obtain ⟨m'', hrun, hs''⟩ := hc
      exact Meets.after (.single hcode (hstm.ok he hrun)) (Meets.now ⟨b, rfl, hs'', ha⟩)
    | fault e s'' =>
      rw [hp] at hc
      obtain ⟨m'', hrun, hs''⟩ := hc
      exact Meets.fault ⟨_, hcode, hstm.fault he hrun⟩ hs''
    | unfinished =>
      rw [hp] at hc
      exact ⟨0, b, m', Nat.le_of_eq hc, .refl⟩
  · rintro e s' k b m' - ⟨ha, hs', he, -⟩
    refine Meets.fault ⟨stm, ?_, hstm.args he⟩ hs'
    rw [ha.routine, ha.pc]
    exact hat.2

lemma Computes.call (hxs : S.ComputesAll xs g)
    (hcall : ∀ a m s ws, S.Rel s a m → S.Changes a (S.calls.run l ws m) (run ws s)) :
    S.Computes (.call l xs) (g >>= run) := by
  intro n a m st hb hw hr hat hrel
  have hn : (Exp.call l xs).saves = Exp.savesAll xs + 1 := rfl
  rw [hn] at hw ⊢
  have ht : (Exp.splitAll xs n).next.toNat = n.toNat + Exp.savesAll xs := by
    rw [Exp.splitAll_next, Ident.toNat_advance_of_lt (by omega)]
  rw [Exp.operand_call] at hat ⊢
  simp only [List.length_append, List.length_cons, List.length_nil]
  generalize (Exp.splitAll xs n).next = t at *
  refine (hxs.call_meets (callsOnce_move t) hcall hb (by omega) hr hat hrel).mono ?_
    (fun _ _ _ _ _ _ h => h.elim)
  rintro w s' _ _ m' - ⟨b, rfl, hs', ha⟩
  have hset : S.Arrives b 1 n.toNat (n.toNat + (Exp.savesAll xs + 1)) (b.setTemp t w).advance :=
    Arrives.setTemp ha.routine (.inr (by omega)) w
  exact ⟨(ha.widen (by omega) (by omega)).trans hset, rel_setTemp (by omega) w hs',
    Activation.eval_setTemp b m' t w, fun h => nomatch h⟩

lemma Performs.move_call {t : Temp} {put : Word → Action σ Unit} (ht : t.toNat < S.bound)
    (hxs : S.ComputesAll xs g)
    (hcall : ∀ a m s ws, S.Rel s a m → S.Changes a (S.calls.run l ws m) (run ws s))
    (hput : ∀ a m s w, S.Rel s a m → ∃ s', put w s = .done () s' ∧ S.Rel s' (a.setTemp t w) m) :
    S.Performs (.move (.temp t) (.call l xs)) (do put (← g >>= run)) := by
  intro n a m st hb hw hr hat hrel
  have hn : (Stm.move (.temp t) (.call l xs)).saves = Exp.savesAll xs := rfl
  rw [hn] at hw ⊢
  rw [Stm.flat_move_temp_call] at hat ⊢
  simp only [List.length_append, List.length_cons, List.length_nil]
  refine Meets.bind (hxs.call_meets (callsOnce_move t) hcall hb hw hr hat hrel) ?_
    (fun _ _ _ _ _ _ h => h.elim)
  rintro w s' _ _ m' - ⟨b, rfl, hs', ha⟩
  obtain ⟨s'', hp, hs''⟩ := hput b m' s' w hs'
  rw [hp]
  exact Meets.now
    ⟨ha.trans (Arrives.setTemp ha.routine (.inl ht) w), S.rel_congr hs'' fun _ _ => rfl⟩

lemma Performs.exp_call (hxs : S.ComputesAll xs g)
    (hcall : ∀ a m s ws, S.Rel s a m → S.Changes a (S.calls.run l ws m) (run ws s)) :
    S.Performs (.exp (.call l xs)) (do let _ ← g >>= run) := by
  intro n a m st hb hw hr hat hrel
  have hn : (Stm.exp (.call l xs)).saves = Exp.savesAll xs := rfl
  rw [hn] at hw ⊢
  rw [Stm.flat_exp_call] at hat ⊢
  simp only [List.length_append, List.length_cons, List.length_nil]
  refine Meets.bind (hxs.call_meets callsOnce_exp hcall hb hw hr hat hrel) ?_
    (fun _ _ _ _ _ _ h => h.elim)
  rintro w s' _ _ m' - ⟨b, rfl, hs', ha⟩
  exact Meets.now ⟨ha.trans (Arrives.advance ha.routine), S.rel_congr hs' fun _ _ => rfl⟩

end Call

end Sim

end BlockLang
