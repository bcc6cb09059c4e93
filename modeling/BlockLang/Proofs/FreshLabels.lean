import BlockLang.Proofs.ControlFlow
import BlockLang.Proofs.LoweringCases
import BlockLang.Proofs.Nodes

/-! The labels that lowering places in the body of a function are distinct. A counter of a loop is
lowered once and placed four times, so this asks for counters without labels. -/

namespace BlockLang

open Source Code

structure Numbered (lo hi : Nat) (cs : List Control) : Prop where
  le : lo ≤ hi
  nodup : (labelsOf cs).Nodup
  range : ∀ l ∈ labelsOf cs, ∃ k, l = .anonymous k ∧ lo ≤ k ∧ k < hi

namespace Numbered

variable {lo mid hi : Nat} {cs ds : List Control}

lemma nil (h : lo ≤ hi) : Numbered lo hi [] :=
  ⟨h, List.nodup_nil, fun _ h => nomatch h⟩

lemma append (h : Numbered lo mid cs) (h' : Numbered mid hi ds) : Numbered lo hi (cs ++ ds) := by
  refine ⟨Nat.le_trans h.le h'.le, ?_, fun l hl => ?_⟩
  · rw [labelsOf_append, List.nodup_append]
    refine ⟨h.nodup, h'.nodup, fun l hl l' hl' he => ?_⟩
    obtain ⟨k, rfl, -, hk⟩ := h.range l hl
    obtain ⟨k', rfl, hk', -⟩ := h'.range l' hl'
    obtain rfl := Label.anonymous.inj he
    omega
  · rw [labelsOf_append, List.mem_append] at hl
    rcases hl with hl | hl
    · obtain ⟨k, rfl, hlo, hhi⟩ := h.range l hl
      exact ⟨k, rfl, hlo, Nat.lt_of_lt_of_le hhi h'.le⟩
    · obtain ⟨k, rfl, hlo, hhi⟩ := h'.range l hl
      exact ⟨k, rfl, Nat.le_trans h.le hlo, hhi⟩

lemma perm (h : Numbered lo hi cs) (hp : (labelsOf cs).Perm (labelsOf ds)) : Numbered lo hi ds :=
  ⟨h.le, hp.nodup_iff.mp h.nodup, fun l hl => h.range l (hp.mem_iff.mpr hl)⟩

lemma label (n : Nat) : Numbered n (n + 1) [.label (.anonymous n)] :=
  ⟨Nat.le_succ n, by simp [labelsOf], fun _ hl => ⟨n, List.mem_singleton.mp hl, Nat.le_refl _,
    Nat.lt_succ_self n⟩⟩

end Numbered

namespace Code

def Closed (cs : List Control) : Prop := ∀ c ∈ cs, ∀ l ∈ c.targets, .label l ∈ cs

lemma Closed.nil : Closed [] := List.forall_mem_nil _

lemma Closed.append {cs ds : List Control} (h : Closed cs) (h' : Closed ds) : Closed (cs ++ ds) := by
  intro c hc l hl
  rcases List.mem_append.mp hc with hc | hc
  · exact List.mem_append_left _ (h c hc l hl)
  · exact List.mem_append_right _ (h' c hc l hl)

def Chunk.controls : Chunk → List Control
  | .code _ s => controlsOf s.statements
  | .data (.global _ l) _ => [.label l]
  | .data (.stack _ _ _) _ | .data (.param _ _ _) _ | .global _ => []

@[simp] lemma Fragment.controls_toExp_value (x : Exp) :
    (Fragment.value x).toExp.controls = x.controls := rfl

@[simp] lemma Fragment.controls_toExp_effect (s : Stm) :
    (Fragment.effect s).toExp.controls = s.controls := by
  simp [Fragment.toExp, Fragment.void, Exp.controls]

lemma Fragment.controls_toStm (r : Fragment) : r.toStm.controls = r.toExp.controls := by
  cases r with
  | value x => rfl
  | effect s => exact (controls_toExp_effect s).symm

@[simp] lemma Exp.controls_staticLink (k : Nat) : (Exp.staticLink k).controls = [] := by
  induction k with
  | zero => rfl
  | succ k ih => exact ih

@[simp] lemma Exp.controls_offset (x : Exp) (n : Int) : (x.offset n).controls = x.controls := by
  unfold Exp.offset
  split
  · rfl
  · simp [Exp.controls]

end Code

namespace Lowering

@[simp] lemma controls_addressOf (level : Nat) (a : Access) : (addressOf level a).controls = [] := by
  cases a <;> simp [addressOf, Exp.controls]

@[simp] lemma controls_variableValue (type : Ty) (x : Exp) (a : Access) :
    (variableValue type x a).controls = x.controls := by
  cases a with
  | param size offset target => rfl
  | global size label =>
    simp only [variableValue]
    split <;> rfl
  | stack size offset target =>
    simp only [variableValue]
    split <;> rfl

lemma controls_unary (op : UnaryOp) (x : Exp) : (unary op x).controls = x.controls := by
  cases op <;> simp [unary, Exp.controls]

lemma controls_element (x y : Exp) (type : Ty) :
    (element x y type).controls = x.controls ++ y.controls := by
  unfold element
  split <;> simp [Exp.controls]

lemma controls_copyWords (t t' : Temp) (size : Int) :
    Stm.controlsAll (copyWords t t' size) = [] := by
  unfold copyWords
  induction wordOffsets size with
  | nil => rfl
  | cons i is ih => simp [Stm.controlsAll, Stm.controls, Exp.controls, ih]

lemma controls_call (c : Callee) (xs : List (Temp × Exp)) (hl : c.link.controls = []) :
    (c.call xs).controls = xs.flatMap fun x => x.2.controls := by
  have htemps : Exp.controlsAll (xs.map fun x => .temp x.1) = [] := by
    induction xs with
    | nil => rfl
    | cons x xs ih => simp [Exp.controlsAll, Exp.controls, ih]
  have hsave : Stm.controlsAll (c.oldFp.toList.map saveFp) = [] := by
    cases c.oldFp <;> rfl
  have hmoves : Stm.controlsAll (xs.map (fun x => .move (.temp x.1) x.2) ++
      c.oldFp.toList.map saveFp) = xs.flatMap fun x => x.2.controls := by
    clear htemps
    induction xs with
    | nil => exact hsave
    | cons x xs ih => simp [Stm.controlsAll, Stm.controls, Exp.controls, ih]
  simp [Callee.call, Exp.controls, Stm.controls, Exp.controlsAll, hmoves, htemps, hl]

lemma controls_linkOf (level : Nat) (f : Frame) : (linkOf level f).controls = [] := by
  unfold linkOf
  split
  · rfl
  · simp

lemma controls_link {scope : Scope} {level : Nat} {n : Node} {f : String} {c : Callee}
    {st st' : State} (h : (callee scope level n f).run st = .ok (c, st')) :
    c.link.controls = [] ∧ st' = st := by
  cases hb : scope.tables.bindings[n.id]? with
  | some target =>
    obtain ⟨frame, -, -, rfl, rfl⟩ := (callee_bound_ok hb).mp h
    exact ⟨controls_linkOf level frame, rfl⟩
  | none =>
    obtain ⟨i, -, rfl, rfl⟩ := (callee_free_ok hb).mp h
    exact ⟨rfl, rfl⟩

lemma controlsAll_append (ss ts : List Stm) :
    Stm.controlsAll (ss ++ ts) = Stm.controlsAll ss ++ Stm.controlsAll ts := by
  induction ss with
  | nil => rfl
  | cons s ss ih => simp [Stm.controlsAll, ih]

lemma controls_block_cons (s : Stm) (init : List Stm) (r : Fragment) :
    (block (s :: init) (some r)).toExp.controls =
      s.controls ++ (block init (some r)).toExp.controls := by
  cases r with
  | value x => simp [block, Exp.controls, Stm.controls, Stm.controlsAll]
  | effect t =>
    simp [block, Stm.controls, Stm.controlsAll, controlsAll_append]

lemma controls_block_singleton (r : Fragment) :
    (block [] (some r)).toExp.controls = r.toExp.controls := by
  cases r with
  | value x => simp [block, Exp.controls, Stm.controls, Stm.controlsAll]
  | effect t => simp [block, Stm.controls, Stm.controlsAll]

section Plain

variable {scope : Scope} {level : Nat} {st st' : State}

mutual

lemma expr_controls_eq_nil (e : Expr) (hp : e.isPlain = true) {st st' : State} {r : Fragment}
    (h : (expr scope level e).run st = .ok (r, st')) : r.toExp.controls = [] := by
  cases e with
  | literal n v =>
    cases v with
    | integer w =>
      obtain ⟨rfl, -⟩ := expr_integer_ok.mp h
      rfl
    | logical b =>
      obtain ⟨rfl, -⟩ := expr_logical_ok.mp h
      rfl
    | string text =>
      obtain ⟨rfl, -⟩ := expr_string_ok.mp h
      rfl
  | name n x =>
    obtain ⟨_, _, _, -, -, -, -, rfl, -⟩ := expr_name_ok.mp h
    simp
  | unary n op e =>
    obtain ⟨r, he, rfl⟩ := expr_unary_ok.mp h
    exact (controls_unary op r.toExp).trans (expr_controls_eq_nil e hp he)
  | binary n op x y =>
    simp only [Expr.isPlain, Bool.and_eq_true] at hp
    cases op with
    | compute op =>
      obtain ⟨r, _, r', hx, hy, rfl⟩ := expr_compute_ok.mp h
      simp [Exp.controls, expr_controls_eq_nil x hp.1 hx,
        expr_controls_eq_nil y hp.2 hy]
    | index =>
      obtain ⟨_, _, -, -, r, _, r', hx, hy, rfl⟩ := expr_index_ok.mp h
      rw [Fragment.controls_toExp_value, controls_element, expr_controls_eq_nil x hp.1 hx,
        expr_controls_eq_nil y hp.2 hy]
      rfl
    | assign =>
      obtain ⟨type, -, h⟩ := expr_assign_ok.mp h
      split at h
      · obtain ⟨-, r, _, r', hx, hy, rfl⟩ := h
        simp [Exp.controls, Stm.controls, Stm.controlsAll,
          controls_copyWords, expr_controls_eq_nil x hp.1 hx, expr_controls_eq_nil y hp.2 hy]
      · obtain ⟨r, _, r', hx, -, hy, rfl⟩ := h
        simp [Stm.controls, expr_controls_eq_nil x hp.1 hx, expr_controls_eq_nil y hp.2 hy]
  | call n f args =>
    obtain ⟨c, _, xs, hc, hx, rfl⟩ := expr_call_ok.mp h
    exact (controls_call c xs (controls_link hc).1).trans (arguments_controls_eq_nil args hp hx)
  | block n es =>
    obtain ⟨init, last, hb, rfl⟩ := expr_block_ok.mp h
    exact body_controls_eq_nil es hp hb
  | whereDefs n e d ds =>
    obtain ⟨_, -, he⟩ := expr_whereDefs_ok.mp h
    exact expr_controls_eq_nil e hp he
  | ifThen n c p => cases hp
  | ifElse n c p q => cases hp
  | whileLoop n c b => cases hp
  | forLoop n c low high step b => cases hp

lemma arguments_controls_eq_nil (es : List Expr) (hp : Expr.arePlain es = true) {st st' : State}
    {xs : List (Temp × Exp)} (h : (arguments scope level es).run st = .ok (xs, st')) :
    (xs.flatMap fun x => x.2.controls) = [] := by
  cases es with
  | nil =>
    obtain ⟨rfl, -⟩ := arguments_nil_ok.mp h
    rfl
  | cons e es =>
    simp only [Expr.arePlain, Bool.and_eq_true] at hp
    obtain ⟨r, _, ys, he, hes, rfl⟩ := arguments_cons_ok.mp h
    rw [List.flatMap_cons, expr_controls_eq_nil e hp.1 he, arguments_controls_eq_nil es hp.2 hes]
    rfl

lemma body_controls_eq_nil (es : List Expr) (hp : Expr.arePlain es = true) {st st' : State}
    {init : List Stm} {last : Option Fragment}
    (h : (body scope level es).run st = .ok ((init, last), st')) :
    (block init last).toExp.controls = [] := by
  match es with
  | [] =>
    obtain ⟨rfl, rfl, -⟩ := body_nil_ok.mp h
    rfl
  | [e] =>
    simp only [Expr.arePlain, Bool.and_eq_true] at hp
    obtain ⟨r, he, rfl, rfl⟩ := body_singleton_ok.mp h
    rw [controls_block_singleton, expr_controls_eq_nil e hp.1 he]
  | e :: e' :: es =>
    rw [Expr.arePlain, Bool.and_eq_true] at hp
    obtain ⟨r, _, rest, he, hes, rfl⟩ := body_cons_ok.mp h
    obtain ⟨q, rfl⟩ := body_last hes
    rw [controls_block_cons, Fragment.controls_toStm, expr_controls_eq_nil e hp.1 he,
      body_controls_eq_nil (e' :: es) hp.2 hes]
    rfl

end

end Plain

structure Places (st st' : State) (cs : List Control) : Prop where
  chunks : ∃ new, st'.chunks.toList = st.chunks.toList ++ new ∧
    Numbered st.labels.used st'.labels.used (cs ++ new.flatMap Chunk.controls) ∧
    ∀ c ∈ new, Closed c.controls
  closed : Closed cs

namespace Places

variable {st st₁ st' : State} {cs ds : List Control}

lemma of_eq (hl : st'.labels = st.labels) (hc : st'.chunks = st.chunks) : Places st st' [] :=
  ⟨⟨[], by simp [hc], .nil (hl ▸ Nat.le_refl _), List.forall_mem_nil _⟩, .nil⟩

lemma numbered (h : Places st st' cs) : Numbered st.labels.used st'.labels.used cs := by
  obtain ⟨new, -, hn, -⟩ := h.chunks
  refine ⟨hn.le, ?_, fun l hl => hn.range l ?_⟩
  · have hd := hn.nodup
    rw [labelsOf_append, List.nodup_append] at hd
    exact hd.1
  · rw [labelsOf_append]
    exact List.mem_append_left _ hl

lemma of_nextTemp {n : Temp} (h : Places { st with nextTemp := n } st' cs) : Places st st' cs :=
  ⟨h.chunks, h.closed⟩

lemma append (h : Places st st₁ cs) (h' : Places st₁ st' ds) : Places st st' (cs ++ ds) := by
  obtain ⟨new, hc, hn, hj⟩ := h.chunks
  obtain ⟨new', hc', hn', hj'⟩ := h'.chunks
  refine ⟨⟨new ++ new', by rw [hc', hc, List.append_assoc], (hn.append hn').perm ?_,
    List.forall_mem_append.mpr ⟨hj, hj'⟩⟩, h.closed.append h'.closed⟩
  refine List.perm_iff_count.mpr fun l => ?_
  simp only [labelsOf_append, List.flatMap_append, List.count_append]
  omega

lemma perm (h : Places st st' cs) (hp : (labelsOf cs).Perm (labelsOf ds)) (hd : Closed ds) :
    Places st st' ds := by
  obtain ⟨new, hc, hn, hj⟩ := h.chunks
  refine ⟨⟨new, hc, hn.perm ?_, hj⟩, hd⟩
  rw [labelsOf_append, labelsOf_append]
  exact hp.append_right _

lemma skip (st : State) (k : Nat) :
    Places st (st.skip k)
      ((List.range k).map fun i => .label (.anonymous (st.labels.used + i))) := by
  refine ⟨⟨[], (List.append_nil _).symm, ?_, List.forall_mem_nil _⟩, fun c hc l hl => ?_⟩
  swap
  · obtain ⟨i, -, rfl⟩ := List.mem_map.mp hc
    cases hl
  rw [List.flatMap_nil, List.append_nil]
  induction k with
  | zero => exact .nil (Nat.le_refl _)
  | succ k ih =>
    rw [List.range_succ, List.map_append]
    exact ih.append (.label _)

lemma push {c : Chunk} {st₂ : State} (h : Places st st₁ cs) (hl : st₂.labels = st₁.labels)
    (hc : st₂.chunks = st₁.chunks.push c) (hp : c.controls = cs) : Places st st₂ [] := by
  obtain ⟨new, he, hn, hj⟩ := h.chunks
  refine ⟨⟨new ++ [c], by rw [hc, Array.toList_push, he, List.append_assoc], ?_, ?_⟩, .nil⟩
  swap
  · exact List.forall_mem_append.mpr ⟨hj, List.forall_mem_singleton.mpr (hp ▸ h.closed)⟩
  rw [hl]
  refine hn.perm ?_
  simp only [List.nil_append, List.flatMap_append, List.flatMap_singleton, labelsOf_append, hp]
  exact List.perm_append_comm

end Places

section Control

variable {p q e : Label} {c x y z : Exp} {s s' : Stm}

lemma closed_ifThen (hc : Closed c.controls) (hs : Closed s.controls) :
    Closed (ifThen p e c s).controls := by
  intro k hk l hl
  simp only [ifThen, Stm.controls, Stm.controlsAll, List.append_nil, List.mem_append,
    List.mem_singleton] at hk ⊢
  rcases hk with (hk | rfl) | rfl | hk | rfl
  · simp [hc k hk l hl]
  · rcases mem_targets_branch.mp hl with rfl | rfl <;> simp
  · cases hl
  · simp [hs k hk l hl]
  · cases hl

lemma closed_ifElse (hc : Closed c.controls) (hs : Closed s.controls) (hs' : Closed s'.controls) :
    Closed (ifElse p q e c s s').controls := by
  intro k hk l hl
  simp only [ifElse, Stm.controls, Stm.controlsAll, List.append_nil, List.mem_append,
    List.mem_singleton] at hk ⊢
  rcases hk with (hk | rfl) | rfl | hk | rfl | rfl | hk | rfl
  · simp [hc k hk l hl]
  · rcases mem_targets_branch.mp hl with rfl | rfl <;> simp
  · cases hl
  · simp [hs k hk l hl]
  · obtain rfl := List.mem_singleton.mp hl
    simp
  · cases hl
  · simp [hs' k hk l hl]
  · cases hl

lemma closed_whileLoop (hc : Closed c.controls) (hs : Closed s.controls) :
    Closed (whileLoop p q e c s).controls := by
  intro k hk l hl
  simp only [whileLoop, Stm.controls, Stm.controlsAll, List.append_nil, List.mem_append,
    List.mem_singleton] at hk ⊢
  rcases hk with rfl | (hk | rfl) | rfl | hk | rfl | rfl
  · cases hl
  · simp [hc k hk l hl]
  · rcases mem_targets_branch.mp hl with rfl | rfl <;> simp
  · cases hl
  · simp [hs k hk l hl]
  · obtain rfl := List.mem_singleton.mp hl
    simp
  · cases hl

lemma closed_forLoop (hc : Closed c.controls) (hx : Closed x.controls) (hy : Closed y.controls)
    (hz : Closed z.controls) (hs : Closed s.controls) :
    Closed (forLoop p q e c x y z s).controls := by
  intro k hk l hl
  simp only [forLoop, Stm.controls, Stm.controlsAll, Exp.controls, List.append_nil, List.mem_append,
    List.mem_singleton] at hk ⊢
  rcases hk with (hk | hk) | rfl | ((hk | hk) | rfl) | rfl | hk | (hk | hk | hk) | rfl | rfl
  · simp [hc k hk l hl]
  · simp [hx k hk l hl]
  · cases hl
  · simp [hc k hk l hl]
  · simp [hy k hk l hl]
  · rcases mem_targets_branch.mp hl with rfl | rfl <;> simp
  · cases hl
  · simp [hs k hk l hl]
  · simp [hc k hk l hl]
  · simp [hc k hk l hl]
  · simp [hz k hk l hl]
  · obtain rfl := List.mem_singleton.mp hl
    simp
  · cases hl

variable {st st₁ st₂ st₃ st₄ st' : State}

lemma places_ifThen (hc : Places st st₁ c.controls) (hs : Places (st₁.skip 2) st' s.controls) :
    Places st st' (ifThen (.anonymous st₁.labels.used) (.anonymous (st₁.labels.used + 1)) c
      s).controls := by
  refine ((hc.append (.skip st₁ 2)).append hs).perm (List.perm_iff_count.mpr fun l => ?_)
    (closed_ifThen hc.closed hs.closed)
  simp [ifThen, Stm.controls, Stm.controlsAll, labelsOf, List.range_succ, List.count_append,
    List.count_cons]

lemma places_ifElse (hc : Places st st₁ c.controls) (hs : Places (st₁.skip 3) st₂ s.controls)
    (hs' : Places st₂ st' s'.controls) :
    Places st st' (ifElse (.anonymous st₁.labels.used) (.anonymous (st₁.labels.used + 1))
      (.anonymous (st₁.labels.used + 2)) c s s').controls := by
  refine (((hc.append (.skip st₁ 3)).append hs).append hs').perm
    (List.perm_iff_count.mpr fun l => ?_) (closed_ifElse hc.closed hs.closed hs'.closed)
  simp [ifElse, Stm.controls, Stm.controlsAll, labelsOf, List.range_succ, List.count_append,
    List.count_cons]
  omega

lemma places_whileLoop (hc : Places (st.skip 3) st₁ c.controls) (hs : Places st₁ st' s.controls) :
    Places st st' (whileLoop (.anonymous st.labels.used) (.anonymous (st.labels.used + 1))
      (.anonymous (st.labels.used + 2)) c s).controls := by
  refine (((Places.skip st 3).append hc).append hs).perm (List.perm_iff_count.mpr fun l => ?_)
    (closed_whileLoop hc.closed hs.closed)
  simp [whileLoop, Stm.controls, Stm.controlsAll, labelsOf, List.range_succ, List.count_append,
    List.count_cons]
  omega

/-- The counter stands in four places, so it may not hold a label. -/
lemma places_forLoop (hn : c.controls = []) (hc : Places (st.skip 3) st₁ c.controls)
    (hx : Places st₁ st₂ x.controls) (hy : Places st₂ st₃ y.controls)
    (hz : Places st₃ st₄ z.controls) (hs : Places st₄ st' s.controls) :
    Places st st' (forLoop (.anonymous st.labels.used) (.anonymous (st.labels.used + 1))
      (.anonymous (st.labels.used + 2)) c x y z s).controls := by
  refine ((((((Places.skip st 3).append hc).append hx).append hy).append hz).append hs).perm
    (List.perm_iff_count.mpr fun l => ?_)
    (closed_forLoop hc.closed hx.closed hy.closed hz.closed hs.closed)
  simp [forLoop, Stm.controls, Stm.controlsAll, Exp.controls, hn, labelsOf, List.range_succ,
    List.count_append, List.count_cons]
  omega

end Control

section Walk

variable {scope : Scope}

mutual

lemma expr_places (e : Expr) (hp : e.hasPlainCounters = true) {level : Nat} {st st' : State}
    {r : Fragment} (h : (expr scope level e).run st = .ok (r, st')) :
    Places st st' r.toExp.controls := by
  cases e with
  | literal n v =>
    cases v with
    | integer w =>
      obtain ⟨rfl, rfl⟩ := expr_integer_ok.mp h
      exact .of_eq rfl rfl
    | logical b =>
      obtain ⟨rfl, rfl⟩ := expr_logical_ok.mp h
      exact .of_eq rfl rfl
    | string text =>
      obtain ⟨rfl, rfl⟩ := expr_string_ok.mp h
      exact (Places.skip st 1).push rfl rfl rfl
  | name n x =>
    obtain ⟨_, _, _, -, -, -, -, rfl, rfl⟩ := expr_name_ok.mp h
    simpa using Places.of_eq rfl rfl
  | unary n op e =>
    obtain ⟨r, he, rfl⟩ := expr_unary_ok.mp h
    rw [Fragment.controls_toExp_value, controls_unary]
    exact expr_places e hp he
  | binary n op x y =>
    simp only [Expr.hasPlainCounters, Bool.and_eq_true] at hp
    cases op with
    | compute op =>
      obtain ⟨r, _, r', hx, hy, rfl⟩ := expr_compute_ok.mp h
      exact (expr_places x hp.1 hx).append (expr_places y hp.2 hy)
    | index =>
      obtain ⟨_, _, -, -, r, _, r', hx, hy, rfl⟩ := expr_index_ok.mp h
      rw [Fragment.controls_toExp_value, controls_element]
      exact (expr_places x hp.1 hx).append (expr_places y hp.2 hy)
    | assign =>
      obtain ⟨type, -, h⟩ := expr_assign_ok.mp h
      split at h
      · obtain ⟨-, r, _, r', hx, hy, rfl⟩ := h
        have hxy := (expr_places x hp.1 hx).append (expr_places y hp.2 hy)
        simpa [Exp.controls, Stm.controls, Stm.controlsAll, controls_copyWords] using
          hxy.of_nextTemp
      · obtain ⟨r, _, r', hx, -, hy, rfl⟩ := h
        simpa [Stm.controls] using (expr_places x hp.1 hx).append (expr_places y hp.2 hy)
  | call n f args =>
    obtain ⟨c, _, xs, hc, hx, rfl⟩ := expr_call_ok.mp h
    obtain ⟨hl, rfl⟩ := controls_link hc
    rw [Fragment.controls_toExp_value, controls_call c xs hl]
    exact arguments_places args hp hx
  | block n es =>
    obtain ⟨init, last, hb, rfl⟩ := expr_block_ok.mp h
    exact body_places es hp hb
  | whereDefs n e d ds =>
    simp only [Expr.hasPlainCounters, Bool.and_eq_true] at hp
    obtain ⟨_, hd, he⟩ := expr_whereDefs_ok.mp h
    exact (defs_places ds hp.2 hd).append (expr_places e hp.1 he)
  | ifThen n c p =>
    simp only [Expr.hasPlainCounters, Bool.and_eq_true] at hp
    obtain ⟨x, st₁, y, hc, hb, rfl⟩ := expr_ifThen_ok.mp h
    have hy := expr_places p hp.2 hb
    rw [← Fragment.controls_toStm] at hy
    simpa using places_ifThen (expr_places c hp.1 hc) hy
  | ifElse n c p q =>
    simp only [Expr.hasPlainCounters, Bool.and_eq_true] at hp
    obtain ⟨x, st₁, y, st₂, z, hc, hb, hb', rfl⟩ := expr_ifElse_ok.mp h
    have hy := expr_places p hp.1.2 hb
    have hz := expr_places q hp.2 hb'
    rw [← Fragment.controls_toStm] at hy hz
    simpa using places_ifElse (expr_places c hp.1.1 hc) hy hz
  | whileLoop n c b =>
    simp only [Expr.hasPlainCounters, Bool.and_eq_true] at hp
    obtain ⟨x, st₁, y, hc, hb, rfl⟩ := expr_whileLoop_ok.mp h
    have hy := expr_places b hp.2 hb
    rw [← Fragment.controls_toStm] at hy
    simpa using places_whileLoop (expr_places c hp.1 hc) hy
  | forLoop n c low high step b =>
    simp only [Expr.hasPlainCounters, Bool.and_eq_true] at hp
    obtain ⟨⟨⟨⟨⟨hn, hc⟩, hl⟩, hh⟩, hs⟩, hb⟩ := hp
    obtain ⟨x, st₁, y, st₂, z, st₃, v, st₄, w, hx, -, hy, hz, hv, hw, rfl⟩ := expr_forLoop_ok.mp h
    have hbody := expr_places b hb hw
    rw [← Fragment.controls_toStm] at hbody
    simpa using places_forLoop (expr_controls_eq_nil c hn hx) (expr_places c hc hx)
      (expr_places low hl hy) (expr_places high hh hz) (expr_places step hs hv) hbody

lemma arguments_places (es : List Expr) (hp : Expr.havePlainCounters es = true) {level : Nat}
    {st st' : State} {xs : List (Temp × Exp)}
    (h : (arguments scope level es).run st = .ok (xs, st')) :
    Places st st' (xs.flatMap fun x => x.2.controls) := by
  cases es with
  | nil =>
    obtain ⟨rfl, rfl⟩ := arguments_nil_ok.mp h
    exact .of_eq rfl rfl
  | cons e es =>
    simp only [Expr.havePlainCounters, Bool.and_eq_true] at hp
    obtain ⟨r, st₁, ys, he, hes, rfl⟩ := arguments_cons_ok.mp h
    rw [List.flatMap_cons]
    exact (expr_places e hp.1 he).append (arguments_places es hp.2 hes).of_nextTemp

lemma body_places (es : List Expr) (hp : Expr.havePlainCounters es = true) {level : Nat}
    {st st' : State} {init : List Stm} {last : Option Fragment}
    (h : (body scope level es).run st = .ok ((init, last), st')) :
    Places st st' (block init last).toExp.controls := by
  match es with
  | [] =>
    obtain ⟨rfl, rfl, rfl⟩ := body_nil_ok.mp h
    exact .of_eq rfl rfl
  | [e] =>
    simp only [Expr.havePlainCounters, Bool.and_eq_true] at hp
    obtain ⟨r, he, rfl, rfl⟩ := body_singleton_ok.mp h
    rw [controls_block_singleton]
    exact expr_places e hp.1 he
  | e :: e' :: es =>
    rw [Expr.havePlainCounters, Bool.and_eq_true] at hp
    obtain ⟨r, st₁, rest, he, hes, rfl⟩ := body_cons_ok.mp h
    have hr := body_places (e' :: es) hp.2 hes
    obtain ⟨q, rfl⟩ := body_last hes
    rw [controls_block_cons, Fragment.controls_toStm]
    exact (expr_places e hp.1 he).append hr

lemma defn_places (d : Def) (hp : d.hasPlainCounters = true) {st st' : State} {u : Unit}
    (h : (defn scope d).run st = .ok (u, st')) : Places st st' [] := by
  cases d with
  | var n x t =>
    obtain ⟨access, -, rfl⟩ := defn_var_ok.mp h
    cases access with
    | global size label => exact (Places.of_eq rfl rfl).push rfl rfl rfl
    | stack size offset target => exact .of_eq rfl rfl
    | param size offset target => exact .of_eq rfl rfl
  | func n f ps t b =>
    obtain ⟨frame, r, st₁, -, hr, rfl⟩ := defn_func_ok.mp h
    exact (expr_places b hp hr).push rfl rfl ((returning r.toExp).controlsOf_flat st₁.nextTemp)
  | type n x t =>
    obtain rfl := defn_type_ok.mp h
    exact .of_eq rfl rfl

lemma defs_places (ds : List Def) (hp : Def.havePlainCounters ds = true) {st st' : State} {u : Unit}
    (h : (defs scope ds).run st = .ok (u, st')) : Places st st' [] := by
  cases ds with
  | nil =>
    obtain rfl := defs_nil_ok.mp h
    exact .of_eq rfl rfl
  | cons d ds =>
    simp only [Def.havePlainCounters, Bool.and_eq_true] at hp
    obtain ⟨st₁, hd, hds⟩ := defs_cons_ok.mp h
    exact (defn_places d hp.1 hd).append (defs_places ds hp.2 hds)

end

end Walk

end Lowering

end BlockLang
