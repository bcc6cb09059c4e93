import BlockLang.Proofs.ConsoleText
import BlockLang.Proofs.StructuredLowering

/-! Conditions of a well-typed expression are always one of the two truth values, so evaluation
faults on a division by zero or when the console refuses a line, and on nothing else. -/

namespace BlockLang

namespace Action

variable {σ α β : Type} {I : σ → Prop} {P : Fault → Prop} {Q : α → Prop} {R : β → Prop}

def Safe (I : σ → Prop) (P : Fault → Prop) (Q : α → Prop) (x : Action σ α) : Prop :=
  ∀ s, I s → match x s with
    | .done a s' => I s' ∧ Q a
    | .fault e _ => P e
    | .unfinished => True

lemma Safe.pure {a : α} (h : Q a) : Safe I P Q (Pure.pure a) := fun _ hs => ⟨hs, h⟩

lemma Safe.fail {e : Fault} (h : P e) : Safe I P Q (Action.fail e) := fun _ _ => h

lemma Safe.mono {Q' : α → Prop} {x : Action σ α} (h : Safe I P Q x) (hq : ∀ a, Q a → Q' a) :
    Safe I P Q' x := by
  intro s hs
  have hx := h s hs
  cases hr : x s with
  | done a s' =>
    rw [hr] at hx
    exact ⟨hx.1, hq a hx.2⟩
  | fault e s' =>
    rw [hr] at hx
    exact hx
  | unfinished => trivial

lemma Safe.bind {x : Action σ α} {f : α → Action σ β} (hx : Safe I P Q x)
    (hf : ∀ a, Q a → Safe I P R (f a)) : Safe I P R (x >>= f) := by
  intro s hs
  have h := hx s hs
  cases hr : x s with
  | done a s' =>
    rw [hr] at h
    rw [bind_done hr]
    exact hf a h.2 s' h.1
  | fault e s' =>
    rw [hr] at h
    rw [bind_fault hr]
    exact h
  | unfinished =>
    rw [bind_unfinished hr]
    trivial

lemma Safe.loop {test : Action σ Bool} {body : Action σ Unit} (ht : Safe I P (fun _ => True) test)
    (hb : Safe I P (fun _ => True) body) (rounds : Nat) :
    Safe I P (fun _ => True) (Action.loop test body rounds) := by
  induction rounds with
  | zero => exact fun _ _ => trivial
  | succ rounds ih =>
    refine ht.bind fun t _ => ?_
    cases t with
    | true => exact hb.bind fun _ _ => ih
    | false => exact .pure trivial

end Action

namespace Source

def IsTruth (w : Word) : Prop := w = 0 ∨ w = 1

lemma isTruth_ofBool (b : Bool) : IsTruth (.ofBool b) := by
  cases b
  · exact .inl rfl
  · exact .inr rfl

/-- What a well-typed program can end with besides a value, when it starts with this console. -/
def IsProper (console : Option Console) (e : Fault) : Prop :=
  e = .divisionByZero ∨ ∃ reason, e = .output reason ∧ Console.Refuses console reason

variable {t : Tables} {vars : List NodeId} {console : Option Console}

structure World.Typed (t : Tables) (console : Option Console) (s : World) : Prop where
  cells : ∀ d, t.types[d]? = some .log → IsTruth (s.cells d)
  refuses : ∀ reason, Console.Refuses s.console reason → Console.Refuses console reason

abbrev SafeIn {α : Type} (t : Tables) (console : Option Console) (x : Action World α) (Q : α → Prop) :
    Prop :=
  x.Safe (World.Typed t console) (IsProper console) Q

abbrev Sound (t : Tables) (console : Option Console) (n : Node) (x : Action World Word) : Prop :=
  SafeIn t console x fun w => t.suits n .log = true → IsTruth w

lemma safe_get {d : NodeId} :
    SafeIn t console (World.get d) fun w => t.types[d]? = some .log → IsTruth w :=
  fun _ hs => ⟨hs, hs.cells d⟩

lemma safe_set {d : NodeId} {w : Word} (hw : t.types[d]? = some .log → IsTruth w) :
    SafeIn t console (World.set d w) fun _ => True := by
  intro s hs
  refine ⟨⟨fun d' ht => ?_, hs.refuses⟩, trivial⟩
  change IsTruth (if d' = d then w else s.cells d')
  by_cases h : d' = d
  · subst h
    rw [if_pos rfl]
    exact hw ht
  · rw [if_neg h]
    exact hs.cells d' ht

lemma safe_print (line : String) :
    SafeIn t console (World.print line) fun _ => True := by
  rintro ⟨cells, console⟩ hs
  cases console with
  | none => exact ⟨hs, trivial⟩
  | some c =>
    unfold World.print
    dsimp only
    obtain ⟨⟨refused, c'⟩, hw⟩ : ∃ r, c.write (line ++ "\n").toUTF8.data = r := ⟨_, rfl⟩
    rw [hw]
    cases refused with
    | none =>
      obtain rfl : (c.write (line ++ "\n").toUTF8.data).2 = c' := by rw [hw]
      exact ⟨⟨hs.cells, fun reason h => hs.refuses reason h.of_write⟩, trivial⟩
    | some reason =>
      exact .inr ⟨reason, rfl, hs.refuses reason (Console.refuses_of_write (by rw [hw]))⟩

lemma safe_test {w : Word} (h : IsTruth w) :
    SafeIn t console (Action.test w) fun _ => True := by
  rcases h with rfl | rfl
  · exact .pure trivial
  · exact .pure trivial

lemma safe_operate (op : Op) (x y : Word) :
    SafeIn t console (operate op x y) fun w =>
      BinaryOp.family (.compute op) ≠ .arithmetic → IsTruth w := by
  have hpure : ∀ w, SafeIn t console (pure w) fun w =>
      BinaryOp.Family.arithmetic ≠ .arithmetic → IsTruth w :=
    fun _ => .pure fun h => (h rfl).elim
  have htruth : ∀ {Q : Prop} (p : Prop) [Decidable p],
      SafeIn t console (pure (Int64.ofInt (truth p))) fun w => Q → IsTruth w :=
    fun p _ => .pure fun _ => by rw [Word.ofInt_truth]; exact isTruth_ofBool _
  -- a quotient, unless the divisor is zero
  have hdiv : ∀ op v, op.value x.toInt y.toInt = (if y.toInt = 0 then none else some v) →
      SafeIn t console (operate op x y) fun w =>
        BinaryOp.Family.arithmetic ≠ .arithmetic → IsTruth w := by
    intro op v h
    by_cases hy : y.toInt = 0
    · rw [if_pos hy] at h
      rw [operate, h]
      exact .fail (.inl rfl)
    · rw [if_neg hy] at h
      rw [operate, h]
      exact hpure _
  cases op with
  | add => exact hpure _
  | sub => exact hpure _
  | mul => exact hpure _
  | div => exact hdiv .div _ rfl
  | mod => exact hdiv .mod _ rfl
  | and => exact htruth _
  | or => exact htruth _
  | eq => exact htruth _
  | ne => exact htruth _
  | lt => exact htruth _
  | gt => exact htruth _
  | le => exact htruth _
  | ge => exact htruth _

lemma Tables.suits_of_hasType {n : Node} {type : Ty} (h : t.hasType n type = true) :
    t.suits n type = true := by
  rw [suits, h, Bool.true_or]

lemma Tables.not_suits_log {n : Node} (h : t.hasType n .int = true) : ¬t.suits n .log = true := by
  simp [suits, hasType, hasType_iff.mp h]

lemma Tables.suits_of_sameType {n n' : Node} {type : Ty} (h : t.sameType n n' = true)
    (hn : t.suits n type = true) : t.suits n' type = true := by
  have he : t.types[n.id]? = t.types[n'.id]? := by simpa [sameType] using h
  simpa [suits, hasType, he] using hn

lemma Tables.type_of_refers {n : Node} {d : NodeId} (h : t.refers vars n = true)
    (hb : t.bindings[n.id]? = some d) : t.types[n.id]? = t.types[d]? := by
  simp only [refers, hb, Bool.and_eq_true, decide_eq_true_eq] at h
  exact h.1.2

lemma Tables.log_of_operates {op : Op} {n l r : Node} (h : t.operates (.compute op) n l r = true)
    (hn : t.suits n .log = true) : BinaryOp.family (.compute op) ≠ .arithmetic := by
  intro hf
  simp only [operates, hf, Bool.and_eq_true] at h
  exact not_suits_log h.1.1 hn

section Walk

variable {n : Node} {rounds : Nat}

lemma Sound.void {x : Action World Unit} (hx : SafeIn t console x fun _ => True) :
    Sound t console n (x >>= fun _ => pure 0) :=
  hx.bind fun _ _ => .pure fun _ => .inl rfl

lemma Sound.test {e : Expr} {x : Action World Word} (hx : Sound t console e.node x)
    (he : t.suits e.node .log = true) :
    SafeIn t console (x >>= Action.test) fun _ => True :=
  hx.bind fun _ hw => safe_test (hw he)

lemma Sound.unary {op : UnaryOp} {e : Expr} {x : Action World Word} (hx : Sound t console e.node x)
    (hn : t.hasType n op.type = true) (he : t.suits e.node op.type = true) :
    Sound t console n (do return .ofInt (op.value (← x).toInt)) := by
  refine hx.bind fun w hw => .pure fun hlog => ?_
  cases op with
  | plus => exact (Tables.not_suits_log hn hlog).elim
  | negate => exact (Tables.not_suits_log hn hlog).elim
  | not =>
    rcases hw he with rfl | rfl
    · exact .inr rfl
    · exact .inl rfl

lemma sound_call {f : String} {args : List Expr} {w : Word} (hp : t.prints f args = true) :
    Sound t console n (World.call f [w]) := by
  obtain ⟨e, i, rfl, -, hf, hi⟩ := Lowering.intrinsic_of_prints hp
  have hline : ∃ line, printed? f [w] = some line := by
    rcases hi with rfl | rfl
    · exact ⟨_, by simp [printed?, hf]; rfl⟩
    · exact ⟨_, by simp [printed?, hf]; rfl⟩
  obtain ⟨line, hl⟩ := hline
  simp only [World.call, hl]
  exact .void (safe_print line)

lemma sound_block {e last : Expr} {es : List Expr}
    (h : ∀ e' ∈ e :: es, Sound t console e'.node (e'.denote t rounds))
    (hl : (e :: es).getLast? = some last) :
    Sound t console last.node (Expr.denoteBlock t rounds (e :: es)) := by
  induction es generalizing e with
  | nil =>
    obtain rfl : e = last := by simpa using hl
    exact h e (List.mem_singleton_self e)
  | cons e' es ih =>
    refine (h e List.mem_cons_self).bind fun _ _ => ?_
    exact ih (fun e'' he => h e'' (List.mem_cons_of_mem e he)) (by simpa using hl)

lemma sound_forLoop {c low high step b : Expr} {d : NodeId} (hd : t.cell? c = some d)
    (hint : t.types[d]? = some .int) (hl : Sound t console low.node (low.denote t rounds))
    (hh : Sound t console high.node (high.denote t rounds))
    (hs : Sound t console step.node (step.denote t rounds))
    (hb : Sound t console b.node (b.denote t rounds)) :
    Sound t console n ((Expr.forLoop n c low high step b).denote t rounds) := by
  have hset : ∀ w, SafeIn t console (World.set d w) fun _ => True := fun w =>
    safe_set fun hlog => nomatch Option.some.inj (hint.symm.trans hlog)
  rw [Lowering.Lowered.denote_forLoop rounds hd]
  refine Sound.void ((hl.bind fun w _ => hset w).bind fun _ _ => ?_)
  refine Action.Safe.loop ?_ ?_ rounds
  · refine (safe_get.bind fun i _ => hh.bind fun j _ => safe_operate .lt i j).bind fun w hw => ?_
    exact safe_test (hw (by decide))
  · refine (hb.bind fun _ _ => .pure trivial).bind fun _ (_ : True) => ?_
    exact (safe_get.bind fun i _ => hs.bind fun j _ => safe_operate .add i j).bind fun w _ => hset w

mutual

lemma Expr.sound (e : Expr) (hw : e.wellTyped t vars = true) :
    Sound t console e.node (e.denote t rounds) := by
  cases e with
  | literal n v =>
    cases v with
    | integer w => exact .pure fun h => (Tables.not_suits_log hw h).elim
    | logical b => exact .pure fun _ => isTruth_ofBool b
    | string text => cases hw
  | name n x =>
    obtain ⟨d, hd, hb, hs⟩ := Tables.binding_of_refers hw
    simp only [Expr.denote, hb]
    refine safe_get.mono fun w h hlog => h ?_
    rw [← Tables.type_of_refers hw hb]
    have hvoid : ¬t.hasType n .void = true := fun hv =>
      Bool.false_ne_true ((Tables.isScalar_of_void hv).symm.trans hs)
    rw [Tables.suits, Bool.or_eq_true] at hlog
    exact Tables.hasType_iff.mp (hlog.resolve_right hvoid)
  | unary n op e =>
    simp only [Expr.wellTyped, Bool.and_eq_true] at hw
    exact (Expr.sound e hw.1.1).unary hw.1.2 hw.2
  | binary n op x y =>
    simp only [Expr.wellTyped, Bool.and_eq_true] at hw
    obtain ⟨⟨⟨hwx, hwy⟩, hop⟩, hcell⟩ := hw
    have hx := Expr.sound x hwx
    have hy := Expr.sound y hwy
    cases op with
    | compute op =>
      refine hx.bind fun u _ => hy.bind fun v _ => ?_
      exact (safe_operate op u v).mono fun w h hlog => h (Tables.log_of_operates hop hlog)
    | assign =>
      obtain ⟨d, hc⟩ := Option.isSome_iff_exists.mp (by simpa using hcell)
      obtain ⟨m, name, rfl, hb⟩ := Tables.name_of_cell? hc
      simp only [Tables.operates, BinaryOp.family, Bool.and_eq_true] at hop
      simp only [Expr.denote, hc]
      have htruth : t.types[d]? = some .log → t.suits y.node .log = true := by
        intro hlog
        have ht : t.hasType m .log = true :=
          Tables.hasType_iff.mpr ((Tables.type_of_refers hwx hb).trans hlog)
        rcases (Bool.or_eq_true _ _).mp hop.2 with hsame | hvoid
        · exact Tables.suits_of_sameType hsame (Tables.suits_of_hasType ht)
        · rw [Tables.suits, hvoid, Bool.or_true]
      exact hy.bind fun w h => (safe_set fun hlog => h (htruth hlog)).bind fun _ _ =>
        .pure fun _ => .inl rfl
    | index => cases hop
  | call n f args =>
    simp only [Expr.wellTyped, Bool.and_eq_true] at hw
    obtain ⟨⟨⟨hargs, -⟩, -⟩, hp⟩ := hw
    have hall := Expr.sound_all args hargs
    obtain ⟨e, i, rfl, -⟩ := Lowering.intrinsic_of_prints hp
    have he := hall e (List.mem_singleton_self e)
    have hd : (Expr.call n f [e]).denote t rounds =
        e.denote t rounds >>= fun w => World.call f [w] := by
      simp [Expr.denote, Expr.denoteAll]
    rw [hd]
    exact he.bind fun w _ => sound_call hp
  | block n es =>
    simp only [Expr.wellTyped, Bool.and_eq_true] at hw
    have hall := Expr.sound_all es hw.1
    cases es with
    | nil => exact .pure fun _ => .inl rfl
    | cons e es =>
      have hl := List.getLast?_eq_some_getLast (List.cons_ne_nil e es)
      have hn := hw.2
      rw [hl] at hn
      exact (sound_block hall hl).mono fun w h hlog => h (Tables.suits_of_sameType hn hlog)
  | ifThen n c p =>
    simp only [Expr.wellTyped, Bool.and_eq_true] at hw
    have hp := Expr.sound p hw.1.1.2
    rw [Lowering.Lowered.denote_ifThen]
    refine Sound.void (((Expr.sound c hw.1.1.1).test hw.2).bind fun b _ => ?_)
    cases b with
    | true => exact hp.bind fun _ _ => .pure trivial
    | false => exact .pure trivial
  | ifElse n c p q =>
    simp only [Expr.wellTyped, Bool.and_eq_true] at hw
    obtain ⟨⟨⟨⟨hwc, hwp⟩, hwq⟩, -⟩, hc⟩ := hw
    have hp := Expr.sound p hwp
    have hq := Expr.sound q hwq
    rw [Lowering.Lowered.denote_ifElse]
    refine Sound.void (((Expr.sound c hwc).test hc).bind fun b _ => ?_)
    cases b with
    | true => exact hp.bind fun _ _ => .pure trivial
    | false => exact hq.bind fun _ _ => .pure trivial
  | whileLoop n c b =>
    simp only [Expr.wellTyped, Bool.and_eq_true] at hw
    have hb := Expr.sound b hw.1.1.2
    rw [Lowering.Lowered.denote_whileLoop]
    exact Sound.void (Action.Safe.loop ((Expr.sound c hw.1.1.1).test hw.2)
      (hb.bind fun _ _ => .pure trivial) rounds)
  | forLoop n c low high step b =>
    simp only [Expr.wellTyped, Bool.and_eq_true] at hw
    obtain ⟨⟨⟨⟨⟨⟨⟨⟨⟨⟨hwc, hwl⟩, hwh⟩, hws⟩, hwb⟩, -⟩, hcell⟩, hc⟩, -⟩, -⟩, -⟩ := hw
    have hl := Expr.sound low hwl
    have hh := Expr.sound high hwh
    have hs := Expr.sound step hws
    have hb := Expr.sound b hwb
    obtain ⟨d, hd⟩ := Option.isSome_iff_exists.mp hcell
    obtain ⟨m, name, rfl, hbind⟩ := Tables.name_of_cell? hd
    have hint : t.types[d]? = some .int := by
      rw [← Tables.type_of_refers hwc hbind]
      exact Tables.hasType_iff.mp hc
    exact sound_forLoop hd hint hl hh hs hb
  | whereDefs n e d ds =>
    simp only [Expr.wellTyped, Bool.and_eq_true] at hw
    refine (Expr.sound e hw.1.2).mono fun w h hlog => h (Tables.suits_of_sameType hw.2 hlog)

lemma Expr.sound_all (es : List Expr) (hw : Expr.allWellTyped t vars es = true) :
    ∀ e ∈ es, Sound t console e.node (e.denote t rounds) := by
  cases es with
  | nil => exact fun _ h => nomatch h
  | cons e es =>
    rw [Expr.allWellTyped, Bool.and_eq_true] at hw
    exact List.forall_mem_cons.mpr ⟨e.sound hw.1, Expr.sound_all es hw.2⟩

end

end Walk

end Source

end BlockLang
