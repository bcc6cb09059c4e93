import BlockLang.Lowering
import BlockLang.Proofs.Simulation

namespace BlockLang

open Code

namespace Sim

variable {σ : Type} {S : Sim σ} {a b : Activation} {m m' : Machine} {x : Exp} {f : Action σ Word}
variable {l l' : Label} {lo hi len : Nat} {st : σ}

lemma exec_goto (hr : a.routine = S.routine) {p : Nat}
    (hl : S.routine.code[p]? = some (.label l)) : a.routine.targets[l]? = some p := by
  rw [hr]
  exact S.resolved p l hl

variable (S) in
structure Goes (a : Activation) (p lo hi : Nat) (b : Activation) : Prop where
  routine : b.routine = S.routine
  pc : b.pc = p
  kept : ∀ t : Temp, S.bound ≤ t.toNat → t.toNat < lo ∨ hi ≤ t.toNat → b.temps[t]? = a.temps[t]?

lemma Goes.arrives {p : Nat} (h : S.Goes a p lo hi b) (hp : p = a.pc + len) :
    S.Arrives a len lo hi b :=
  ⟨h.routine, h.pc.trans hp, h.kept⟩

lemma Goes.widen {p lo' hi' : Nat} (h : S.Goes a p lo hi b) (hl : lo' ≤ lo) (hh : hi ≤ hi') :
    S.Goes a p lo' hi' b :=
  ⟨h.routine, h.pc, fun t hb ht => h.kept t hb (by omega)⟩

lemma Goes.trans {c : Activation} {p p' : Nat} (h : S.Goes a p lo hi b)
    (h' : S.Goes b p' lo hi c) : S.Goes a p' lo hi c :=
  ⟨h'.routine, h'.pc, fun t hb ht => (h'.kept t hb ht).trans (h.kept t hb ht)⟩

lemma Computes.branch (hx : S.Computes x f) {n : Temp} {p p' : Nat} (hb : S.bound ≤ n.toNat)
    (hw : n.toNat + x.saves < UInt32.size) (hr : a.routine = S.routine)
    (hat : S.routine.At a.pc ((x.operand n).before ++ [.cjump (x.operand n).value l l']))
    (hl : S.routine.code[p]? = some (.label l)) (hl' : S.routine.code[p']? = some (.label l'))
    (hrel : S.Rel st a m) :
    S.Meets a m
      (fun t s' b m' => S.Goes a (if t then p else p') n.toNat (n.toNat + x.saves) b ∧
        S.Rel s' b m')
      (fun _ _ _ _ => False) ((f >>= Action.test) st) := by
  simp only [Routine.at_append, Routine.at_cons, Routine.at_nil, and_true] at hat
  refine Meets.bind (hx n a m st hb hw hr hat.1 hrel) ?_ ?_
  · rintro w s' k b m' - ⟨ha, hs', he, -⟩
    have hcode : b.routine.code[b.pc]? = some (.cjump (x.operand n).value l l') := by
      rw [ha.routine, ha.pc]
      exact hat.2
    unfold Action.test
    split
    · rename_i h1
      rw [h1] at he
      have hstep : Reach S.calls 1 b m' { b with pc := p } m' :=
        .single hcode (Activation.exec_cjump_one he (exec_goto ha.routine hl))
      exact Meets.after hstep (Meets.now
        ⟨⟨ha.routine, rfl, ha.kept⟩, S.rel_congr hs' fun _ _ => rfl⟩)
    · split
      · rename_i h0
        rw [h0] at he
        have hstep : Reach S.calls 1 b m' { b with pc := p' } m' :=
          .single hcode (Activation.exec_cjump_zero he (exec_goto ha.routine hl'))
        exact Meets.after hstep (Meets.now
          ⟨⟨ha.routine, rfl, ha.kept⟩, S.rel_congr hs' fun _ _ => rfl⟩)
      · rename_i h1 h0
        exact Meets.fault ⟨_, hcode, Activation.exec_cjump_invalid he h1 h0⟩ (S.last_of_rel hs')
  · rintro e s' k b m' - ⟨ha, hs', he, -⟩
    refine Meets.fault ⟨.cjump (x.operand n).value l l', ?_, Activation.exec_cjump_error he⟩ hs'
    rw [ha.routine, ha.pc]
    exact hat.2

section Walk

variable {α : Type} {post : α → σ → Activation → Machine → Prop}
variable {late : Fault → σ → Activation → Machine → Prop} {r : Ending σ α} {p p' : Nat}

lemma Meets.then {post' : α → σ → Activation → Machine → Prop}
    (h : S.Meets a m post (fun _ _ _ _ => False) r)
    (hd : ∀ w s b m', post w s b m' → S.Meets b m' post' late (.done w s)) :
    S.Meets a m post' late r := by
  cases r with
  | done w s =>
    obtain ⟨k, b, m', hr, hp⟩ := h
    exact .after hr (hd w s b m' hp)
  | fault e s =>
    rcases h with h | ⟨_, _, _, _, h⟩
    · exact .inl h
    · exact h.elim
  | unfinished => exact h

lemma Meets.label (ha : S.Goes a p lo hi b) (hl : S.routine.code[p]? = some (.label l))
    (hrel : S.Rel st b m)
    (h : ∀ c, S.Goes a (p + 1) lo hi c → S.Rel st c m → S.Meets c m post late r) :
    S.Meets b m post late r := by
  have hcode : b.routine.code[b.pc]? = some (.label l) := by
    rw [ha.routine, ha.pc]
    exact hl
  have hnext : S.Goes a (p + 1) lo hi b.advance :=
    ⟨ha.routine, congrArg (· + 1) ha.pc, ha.kept⟩
  exact .after (.single hcode Activation.exec_label)
    (h _ hnext (S.rel_congr hrel fun _ _ => rfl))

lemma Meets.jump (ha : S.Goes a p lo hi b) (hj : S.routine.code[p]? = some (.jump l))
    (hl : S.routine.code[p']? = some (.label l)) (hrel : S.Rel st b m)
    (h : ∀ c, S.Goes a p' lo hi c → S.Rel st c m → S.Meets c m post late r) :
    S.Meets b m post late r := by
  have hcode : b.routine.code[b.pc]? = some (.jump l) := by
    rw [ha.routine, ha.pc]
    exact hj
  exact .after (.single hcode (Activation.exec_jump (exec_goto ha.routine hl)))
    (h _ ⟨ha.routine, rfl, ha.kept⟩ (S.rel_congr hrel fun _ _ => rfl))

end Walk

variable {body other : Stm} {p q : Action σ Unit}

lemma Performs.inside (hp : S.Performs body p) {n : Temp} {i : Nat} (ha : S.Goes a i lo hi b)
    (hlo : lo ≤ n.toNat) (hhi : n.toNat + body.saves ≤ hi) (hb : S.bound ≤ n.toNat)
    (hw : n.toNat + body.saves < UInt32.size) (hat : S.routine.At i (body.flat n).code)
    (hrel : S.Rel st b m) :
    S.Meets b m
      (fun _ s' c m' => S.Goes a (i + (body.flat n).code.length) lo hi c ∧ S.Rel s' c m')
      (fun _ _ _ _ => False) (p st) := by
  refine (hp n b m st hb hw ha.routine (by rw [ha.pc]; exact hat) hrel).mono ?_
    (fun _ _ _ _ _ _ h => h)
  rintro - s' k c m' - ⟨hc, hs'⟩
  exact ⟨⟨hc.routine, by rw [hc.pc, ha.pc],
    fun t ht h => (hc.kept t ht (by omega)).trans (ha.kept t ht h)⟩, hs'⟩

lemma flat_ifThen (positive stop : Label) (c : Exp) (body : Stm) (n : Temp) :
    (Lowering.ifThen positive stop c body).flat n =
      ⟨((c.operand n).before ++ [.cjump (c.operand n).value positive stop]) ++
          .label positive :: ((body.flat (c.operand n).next).code ++ [.label stop]),
        (body.flat (c.operand n).next).next⟩ := by
  simp [Lowering.ifThen, Stm.flat_seq_cons, Stm.flat_seq_nil, Stm.flat_cjump, Stm.flat_label]

lemma saves_ifThen (positive stop : Label) (c : Exp) (body : Stm) :
    (Lowering.ifThen positive stop c body).saves = c.saves + body.saves := by
  simp [Lowering.ifThen, Stm.saves_seq_cons, Stm.saves_cjump]

lemma Performs.ifThen {positive stop : Label} (hx : S.Computes x f) (hp : S.Performs body p) :
    S.Performs (Lowering.ifThen positive stop x body) (do if ← f >>= Action.test then p) := by
  intro n a m st hb hw hr hat hrel
  have hn := saves_ifThen positive stop x body
  have hnext : (x.operand n).next.toNat = n.toNat + x.saves := by
    rw [Exp.operand_next, Ident.toNat_advance_of_lt (by omega)]
  rw [hn] at hw ⊢
  rw [flat_ifThen] at hat ⊢
  rw [Routine.at_append, Routine.at_cons] at hat
  obtain ⟨hjump, hpos, hat⟩ := hat
  rw [Routine.at_append, Routine.at_cons] at hat
  obtain ⟨hbody, hstop, -⟩ := hat
  refine Meets.bind (hx.branch hb (by omega) hr hjump hpos hstop hrel) ?_
    (fun _ _ _ _ _ _ h => h.elim)
  rintro t s' k b m' - ⟨hbr, hs'⟩
  have ha := hbr.widen (Nat.le_refl _) (Nat.add_le_add_left (Nat.le_add_right _ body.saves) n.toNat)
  cases t with
  | true =>
    refine Meets.label ha hpos hs' fun c hc hs'' => ?_
    refine Meets.then (hp.inside hc (by omega) (by omega) (by omega) (by omega) hbody hs'') ?_
    rintro - s₁ d m'' ⟨hd, hs₁⟩
    exact Meets.label hd hstop hs₁ fun e he hs₂ => Meets.now ⟨he.arrives (by simp; omega), hs₂⟩
  | false =>
    exact Meets.label ha hstop hs' fun c hc hs'' => Meets.now ⟨hc.arrives (by simp; omega), hs''⟩

lemma flat_ifElse (positive negative stop : Label) (c : Exp) (body other : Stm) (n : Temp) :
    (Lowering.ifElse positive negative stop c body other).flat n =
      ⟨((c.operand n).before ++ [.cjump (c.operand n).value positive negative]) ++
          .label positive :: ((body.flat (c.operand n).next).code ++
            .jump stop :: .label negative ::
              ((other.flat (body.flat (c.operand n).next).next).code ++ [.label stop])),
        (other.flat (body.flat (c.operand n).next).next).next⟩ := by
  simp [Lowering.ifElse, Stm.flat_seq_cons, Stm.flat_seq_nil, Stm.flat_cjump, Stm.flat_label,
    Stm.flat_jump]

lemma saves_ifElse (positive negative stop : Label) (c : Exp) (body other : Stm) :
    (Lowering.ifElse positive negative stop c body other).saves =
      c.saves + body.saves + other.saves := by
  simp [Lowering.ifElse, Stm.saves_seq_cons, Stm.saves_cjump, Nat.add_assoc]

lemma Performs.ifElse {positive negative stop : Label} (hx : S.Computes x f)
    (hp : S.Performs body p) (hq : S.Performs other q) :
    S.Performs (Lowering.ifElse positive negative stop x body other)
      (do if ← f >>= Action.test then p else q) := by
  intro n a m st hb hw hr hat hrel
  have hn := saves_ifElse positive negative stop x body other
  rw [hn] at hw ⊢
  rw [flat_ifElse] at hat ⊢
  have hn₁ : (x.operand n).next.toNat = n.toNat + x.saves := by
    rw [Exp.operand_next, Ident.toNat_advance_of_lt (by omega)]
  have hn₂ : (body.flat (x.operand n).next).next.toNat = n.toNat + x.saves + body.saves := by
    rw [Stm.flat_next, Ident.toNat_advance_of_lt (by omega), hn₁]
  rw [Routine.at_append, Routine.at_cons] at hat
  obtain ⟨hbranch, hpos, hat⟩ := hat
  rw [Routine.at_append, Routine.at_cons, Routine.at_cons] at hat
  obtain ⟨hbody, hjump, hneg, hat⟩ := hat
  rw [Routine.at_append, Routine.at_cons] at hat
  obtain ⟨hother, hstop, -⟩ := hat
  refine Meets.bind (hx.branch hb (by omega) hr hbranch hpos hneg hrel) ?_
    (fun _ _ _ _ _ _ h => h.elim)
  rintro t s' k b m' - ⟨hbr, hs'⟩
  have ha : S.Goes a _ n.toNat (n.toNat + (x.saves + body.saves + other.saves)) b :=
    hbr.widen (Nat.le_refl _) (by omega)
  cases t with
  | true =>
    refine Meets.label ha hpos hs' fun c hc hs₁ => ?_
    refine Meets.then (hp.inside hc (by omega) (by omega) (by omega) (by omega) hbody hs₁) ?_
    rintro - s₂ d m'' ⟨hd, hs₂⟩
    refine Meets.jump hd hjump hstop hs₂ fun e he hs₃ => ?_
    exact Meets.label he hstop hs₃ fun g hg hs₄ => Meets.now ⟨hg.arrives (by simp; omega), hs₄⟩
  | false =>
    refine Meets.label ha hneg hs' fun c hc hs₁ => ?_
    refine Meets.then (hq.inside hc (by omega) (by omega) (by omega) (by omega) hother hs₁) ?_
    rintro - s₂ d m'' ⟨hd, hs₂⟩
    exact Meets.label hd hstop hs₂ fun g hg hs₄ => Meets.now ⟨hg.arrives (by simp; omega), hs₄⟩

def withFuel (S : Sim σ) (fuel : Nat) : Sim σ := { S with fuel }

section Fuel

variable {α : Type} {post : α → σ → Activation → Machine → Prop}
variable {late : Fault → σ → Activation → Machine → Prop} {r : Ending σ α} {k fuel fuel' : Nat}

lemma Meets.withFuel (h : S.Meets a m post late r) (hf : fuel ≤ S.fuel) :
    (S.withFuel fuel).Meets a m post late r := by
  cases r with
  | done w s => exact h
  | fault e s => exact h
  | unfinished =>
    obtain ⟨k, b, m', hk, hr⟩ := h
    exact ⟨k, b, m', Nat.le_trans hf hk, hr⟩

lemma Meets.after_withFuel (hr : Reach S.calls k a m b m')
    (h : (S.withFuel fuel).Meets b m' post late r) (hf : fuel' ≤ k + fuel) :
    (S.withFuel fuel').Meets a m post late r := by
  cases r with
  | done w s => exact Meets.after (S := S.withFuel fuel') hr h
  | fault e s => exact Meets.after (S := S.withFuel fuel') hr h
  | unfinished =>
    obtain ⟨j, c, m'', hj, hr'⟩ := h
    exact ⟨k + j, c, m'', Nat.le_trans hf (Nat.add_le_add_left hj k), hr.trans hr'⟩

end Fuel

lemma flat_whileLoop (start inside stop : Label) (c : Exp) (body : Stm) (n : Temp) :
    (Lowering.whileLoop start inside stop c body).flat n =
      ⟨.label start :: (((c.operand n).before ++ [.cjump (c.operand n).value inside stop]) ++
          .label inside :: ((body.flat (c.operand n).next).code ++ [.jump start, .label stop])),
        (body.flat (c.operand n).next).next⟩ := by
  simp [Lowering.whileLoop, Stm.flat_seq_cons, Stm.flat_seq_nil, Stm.flat_cjump, Stm.flat_label,
    Stm.flat_jump]

lemma saves_whileLoop (start inside stop : Label) (c : Exp) (body : Stm) :
    (Lowering.whileLoop start inside stop c body).saves = c.saves + body.saves := by
  simp [Lowering.whileLoop, Stm.saves_seq_cons, Stm.saves_cjump]

lemma loop_meets {test : Action σ Bool} {act : Action σ Unit} {start stop : Nat}
    (hlabel : ∃ l, S.routine.code[start]? = some (.label l))
    (hround : ∀ b m st, S.Goes a (start + 1) lo hi b → S.Rel st b m →
      S.Meets b m
        (fun t s' c m' => S.Goes a (if t then start else stop) lo hi c ∧ S.Rel s' c m')
        (fun _ _ _ _ => False) (Action.round test act st)) :
    ∀ (rounds : Nat), rounds ≤ S.fuel → ∀ b m st, S.Goes a start lo hi b → S.Rel st b m →
      (S.withFuel rounds).Meets b m (fun _ s' c m' => S.Goes a stop lo hi c ∧ S.Rel s' c m')
        (fun _ _ _ _ => False) (Action.loop test act rounds st) := by
  intro rounds
  induction rounds with
  | zero => exact fun _ b m st _ _ => ⟨0, b, m, Nat.le_refl 0, .refl⟩
  | succ rounds ih =>
    intro hf b m st hb hrel
    obtain ⟨l, hl⟩ := hlabel
    have hcode : b.routine.code[b.pc]? = some (.label l) := by
      rw [hb.routine, hb.pc]
      exact hl
    have hnext : S.Goes a (start + 1) lo hi b.advance :=
      ⟨hb.routine, congrArg (· + 1) hb.pc, hb.kept⟩
    refine Meets.after_withFuel (.single hcode Activation.exec_label) ?_
      (Nat.le_of_eq (Nat.add_comm rounds 1))
    rw [Action.loop_succ]
    have hone := (hround b.advance m st hnext (S.rel_congr hrel fun _ _ => rfl)).withFuel
      (Nat.le_of_succ_le hf)
    refine Meets.bind hone ?_ (fun _ _ _ _ _ _ h => h.elim)
    rintro t s' k c m' - ⟨hc, hs'⟩
    cases t with
    | true => exact ih (Nat.le_of_succ_le hf) c m' s' hc hs'
    | false => exact Meets.now ⟨hc, hs'⟩

lemma Performs.whileLoop {start inside stop : Label} (hx : S.Computes x f)
    (hp : S.Performs body p) :
    S.Performs (Lowering.whileLoop start inside stop x body)
      (Action.loop (f >>= Action.test) p S.fuel) := by
  intro n a m st hb hw hr hat hrel
  have hn := saves_whileLoop start inside stop x body
  have hnext : (x.operand n).next.toNat = n.toNat + x.saves := by
    rw [Exp.operand_next, Ident.toNat_advance_of_lt (by omega)]
  rw [hn] at hw ⊢
  rw [flat_whileLoop] at hat ⊢
  rw [Routine.at_cons, Routine.at_append, Routine.at_cons] at hat
  obtain ⟨hstart, hbranch, hinside, hat⟩ := hat
  rw [Routine.at_append, Routine.at_cons, Routine.at_cons] at hat
  obtain ⟨hbody, hjump, hstop, -⟩ := hat
  have hbegin : S.Goes a a.pc n.toNat (n.toNat + (x.saves + body.saves)) a :=
    ⟨hr, rfl, fun _ _ _ => rfl⟩
  generalize hlast : a.pc + 1 + ((x.operand n).before ++ [_]).length + 1 +
    (body.flat (x.operand n).next).code.length + 1 = last at hstop
  have hround : ∀ b m st, S.Goes a (a.pc + 1) n.toNat (n.toNat + (x.saves + body.saves)) b →
      S.Rel st b m → S.Meets b m
        (fun t s' c m' => S.Goes a (if t then a.pc else last) n.toNat
          (n.toNat + (x.saves + body.saves)) c ∧ S.Rel s' c m')
        (fun _ _ _ _ => False) (Action.round (f >>= Action.test) p st) := by
    intro b m st hb' hrel'
    refine Meets.bind (hx.branch hb (by omega) hb'.routine (by rw [hb'.pc]; exact hbranch) hinside
      hstop hrel') ?_ (fun _ _ _ _ _ _ h => h.elim)
    rintro t s' k c m' - ⟨hbr, hs'⟩
    have hc := hb'.trans (hbr.widen (Nat.le_refl _) (by omega))
    cases t with
    | true =>
      refine Meets.label hc hinside hs' fun d hd hs₁ => ?_
      refine Meets.bind (hp.inside hd (by omega) (by omega) (by omega) (by omega) hbody hs₁) ?_
        (fun _ _ _ _ _ _ h => h.elim)
      rintro - s₂ _ e m'' - ⟨he, hs₂⟩
      exact Meets.jump he hjump hstart hs₂ fun g hg hs₃ => Meets.now ⟨hg, hs₃⟩
    | false => exact Meets.now ⟨hc, hs'⟩
  refine Meets.then (loop_meets ⟨start, hstart⟩ hround S.fuel (Nat.le_refl _) a m st hbegin hrel) ?_
  rintro - s' b m' ⟨hb', hs'⟩
  refine Meets.label hb' hstop hs' fun c hc hs₁ => Meets.now ⟨hc.arrives ?_, hs₁⟩
  simp only [List.length_append, List.length_cons, List.length_nil] at hlast ⊢
  omega

lemma Performs.forLoop {test inside stop : Label} {counter low high step : Exp}
    {set advance : Action σ Unit} {f : Action σ Word}
    (hset : S.Performs (.move counter low) set)
    (htest : S.Computes (.binop .lt counter high) f) (hbody : S.Performs body p)
    (hadvance : S.Performs (.move counter (.binop .add counter step)) advance) :
    S.Performs (Lowering.forLoop test inside stop counter low high step body) (do
      set
      Action.loop (f >>= Action.test) (do p; advance) S.fuel) := by
  have hround := hbody.seq_cons (hadvance.seq_cons Performs.seq_nil)
  have hloop : S.Performs (Lowering.whileLoop test inside stop (.binop .lt counter high)
      (.seq [body, .move counter (.binop .add counter step)])) _ := Performs.whileLoop htest hround
  have h := hset.seq_cons (hloop.seq_cons Performs.seq_nil)
  simp only [bind_pure_unit] at h
  refine h.of_flat (fun n => ?_) ?_
  · simp [Lowering.forLoop, Lowering.whileLoop, Stm.flat_seq_cons, Stm.flat_seq_nil,
      Stm.flat_label, Stm.flat_jump]
  · simp [Lowering.forLoop, Lowering.whileLoop, Stm.saves_seq_cons]

lemma operand_callOne (t : Temp) (n : Temp) (hx : x.isCall = false) :
    (Exp.eseq (.seq [.move (.temp t) x]) (.call l [.const 0, .temp t])).operand n =
      ⟨(x.operand n).before ++ [.move (.temp t) (x.operand n).value,
          .move (.temp (x.operand n).next) (.call l [.const 0, .temp t])],
        .temp (x.operand n).next, (x.operand n).next.next⟩ := by
  rw [Exp.operand_eseq, Exp.operand_call, Stm.flat_seq_cons, Stm.flat_seq_nil,
    Stm.flat_move_temp t n hx]
  simp [Exp.splitAll_of_isPure, Exp.isPure]

lemma Computes.callOne {t : Temp} {run : Word → Action σ Word} (ht : t.toNat < S.bound)
    (hc : x.isCall = false) (hx : S.Computes x f)
    (hput : ∀ a m s w, S.Rel s a m → S.Rel s (a.setTemp t w) m)
    (hrun : ∀ a m s w, S.Rel s a m → S.Changes a (S.calls.run l [0, w] m) (run w s)) :
    S.Computes (.eseq (.seq [.move (.temp t) x]) (.call l [.const 0, .temp t])) (f >>= run) := by
  intro n a m st hb hw hr hat hrel
  have hn : (Exp.eseq (.seq [.move (.temp t) x]) (.call l [.const 0, .temp t])).saves =
      x.saves + 1 := by
    have hargs : Exp.savesAll [.const 0, .temp t] = 0 := Exp.savesAll_of_isPure rfl
    rw [Exp.saves_eseq, Stm.saves_seq_cons, Stm.saves_move_temp t hc, Exp.saves_call, hargs,
      Stm.saves_seq_nil]
  have hnext : (x.operand n).next.toNat = n.toNat + x.saves := by
    rw [Exp.operand_next, Ident.toNat_advance_of_lt (by omega)]
  rw [hn] at hw ⊢
  rw [operand_callOne t n hc] at hat ⊢
  rw [Routine.at_append, Routine.at_cons, Routine.at_cons] at hat
  obtain ⟨hbefore, hmove, hcall, -⟩ := hat
  refine Meets.bind (hx n a m st hb (by omega) hr hbefore hrel) ?_ ?_
  · rintro w s' k b m' - ⟨ha, hs', he, -⟩
    have hset : Reach S.calls 1 b m' (b.setTemp t w).advance m' :=
      .single (by rw [ha.routine, ha.pc]; exact hmove)
        (Activation.exec_move_temp (x.operand_value_isPure n) he t)
    refine Meets.after hset ?_
    have hc' : S.Arrives a ((x.operand n).before.length + 1) n.toNat (n.toNat + (x.saves + 1))
        (b.setTemp t w).advance :=
      (ha.widen (Nat.le_refl _) (by omega)).trans (Arrives.setTemp ha.routine (.inl ht) w)
    have hrel' : S.Rel s' (b.setTemp t w).advance m' := S.rel_congr (hput b m' s' w hs') fun _ _ => rfl
    have hargs : (b.setTemp t w).advance.evalAll m' [.const 0, .temp t] = .ok [0, w] :=
      evalAll_cons_ok rfl (evalAll_cons_ok (Activation.eval_setTemp b m' t w) rfl)
    generalize (b.setTemp t w).advance = c at hc' hrel' hargs
    have hcode : c.routine.code[c.pc]? =
        some (.move (.temp (x.operand n).next) (.call l [.const 0, .temp t])) := by
      rw [hc'.routine, hc'.pc]
      exact hcall
    have hch := hrun c m' s' w hrel'
    cases hp : run w s' with
    | done v s'' =>
      rw [hp] at hch
      obtain ⟨m'', hr', hs''⟩ := hch
      have hlast : S.Arrives c 1 n.toNat (n.toNat + (x.saves + 1))
          (c.setTemp (x.operand n).next v).advance :=
        Arrives.setTemp hc'.routine (.inr (by omega)) v
      refine Meets.after (.single hcode (Activation.exec_move_call hargs hr' _)) (Meets.now ?_)
      exact ⟨by simpa using hc'.trans hlast, rel_setTemp (by omega) v hs'',
        Activation.eval_setTemp c m'' _ v, fun h => nomatch h⟩
    | fault e s'' =>
      rw [hp] at hch
      obtain ⟨m'', hr', hs''⟩ := hch
      exact Meets.fault ⟨_, hcode, Activation.exec_move_call_error hargs hr' _⟩ hs''
    | unfinished =>
      rw [hp] at hch
      exact ⟨0, c, m', Nat.le_of_eq hch, .refl⟩
  · rintro e s' k b m' - ⟨ha, hs', he, -⟩
    refine Meets.fault ⟨.move (.temp t) (x.operand n).value, ?_,
      Activation.exec_move_temp_error (x.operand_value_isPure n) he t⟩ hs'
    rw [ha.routine, ha.pc]
    exact hmove

end Sim

end BlockLang
