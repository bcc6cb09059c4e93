import BlockLang.Proofs.Flow
import BlockLang.Proofs.LoweringItems

namespace BlockLang

open Source Code

def Code.Fragment.Safe (B : Bindings) : Fragment → Prop
  | .value x => x.Safe B ∅
  | .effect s => s.Safe B ∅ ∅

namespace Code.Fragment.Safe

variable {B : Bindings} {r : Fragment}

lemma toExp (h : r.Safe B) : r.toExp.Safe B ∅ := by
  cases r with
  | value x => exact h
  | effect s => exact Exp.Safe.eseq h (Exp.Ready.safe trivial)

lemma toStm (h : r.Safe B) : r.toStm.Safe B ∅ ∅ := by
  cases r with
  | value x => exact Stm.safe_exp h
  | effect s => exact h

end Code.Fragment.Safe

namespace Lowering

structure Supports (B : Bindings) (scope : Scope) : Prop where
  framePointer : .framePointer ∈ B.names
  stackPointer : .stackPointer ∈ B.names
  global : ∀ (i : NodeId) (size : Int) (l : Label),
    scope.accesses[i]? = some (.global size l) → l ∈ B.names
  function : ∀ (i : NodeId) (f : Frame), scope.frames[i]? = some f → f.label ∈ B.functions
  intrinsic : ∀ i : Intrinsic, i.label ∈ B.functions

def Defines (B : Bindings) (st : State) : Prop :=
  ∀ (size : Int) (l : Label) (text : String),
    Chunk.data (.global size l) text ∈ st.chunks.toList → l ∈ B.names

variable {B : Bindings} {scope : Scope} {level : Nat}

lemma Defines.before {st st' : State} {os : List Occurrence} (hd : Defines B st')
    (h : Accounts scope os st st') : Defines B st := by
  obtain ⟨css, -, hc⟩ := h
  intro size l text hm
  apply hd size l text
  rw [hc]
  exact List.mem_append_left _ hm

lemma Defines.before_items {st st' : State} {is : List Item} (hd : Defines B st')
    (h : Emits scope is st st') : Defines B st :=
  hd.before (h.accounts fun d _ => defn_accounts d [])

section Parts

variable {D : Set Temp} {x y : Exp}

lemma ready_staticLink (hs : Supports B scope) (k : Nat) : (Exp.staticLink k).Ready B D := by
  induction k with
  | zero => exact hs.framePointer
  | succ k ih => exact ih

lemma ready_offset (h : x.Ready B D) (n : Int) : (x.offset n).Ready B D := by
  unfold Exp.offset
  split
  · exact h
  · exact ⟨h, trivial⟩

lemma ready_addressOf (hs : Supports B scope) {i : NodeId} {a : Access}
    (ha : scope.accesses[i]? = some a) : (addressOf level a).Ready B D := by
  cases a with
  | global size l => exact hs.global i size l ha
  | stack size offset target => exact ready_offset (ready_staticLink hs _) offset
  | param size offset target => exact ready_offset (ready_staticLink hs _) offset

lemma ready_variableValue (h : x.Ready B D) (type : Ty) (a : Access) :
    (variableValue type x a).Ready B D := by
  cases a with
  | param size offset target => exact h
  | global size l =>
    simp only [variableValue]
    split
    · exact h
    · exact h
  | stack size offset target =>
    simp only [variableValue]
    split
    · exact h
    · exact h

lemma safe_unary (h : x.Safe B D) (op : UnaryOp) : (unary op x).Safe B D := by
  have hc : ∀ w : Word, (Exp.const w).Safe B D := fun w => Exp.Ready.safe (x := .const w) trivial
  cases op with
  | plus => exact h
  | negate => exact (hc 0).binop h .sub
  | not => exact (hc 1).binop h .sub

lemma safe_element (hx : x.Safe B D) (hy : y.Safe B D) (type : Ty) :
    (element x y type).Safe B D := by
  have ha := hx.binop (hy.binop (y := .const (.ofInt type.size)) (Exp.Ready.safe trivial) .mul) .add
  unfold element
  split
  · exact ha
  · exact ha.mem

lemma safe_copyWords {dst src : Temp} (hd : dst ∈ D) (hs : src ∈ D) (size : Int) :
    (Stm.seq (copyWords dst src size)).Safe B D ∅ := by
  apply Stm.safe_seq
  intro s hm
  obtain ⟨i, -, rfl⟩ := List.mem_map.mp hm
  have hdst : (Exp.mem (Exp.offset (.temp dst) i)).Ready B D := ready_offset (x := .temp dst) hd i
  have hsrc : (Exp.mem (Exp.offset (.temp src) i)).Ready B D := ready_offset (x := .temp src) hs i
  exact Stm.safe_move_mem hdst.safe hsrc.safe

lemma safe_copy {dst src : Temp} (hx : x.Safe B D) (hy : y.Safe B D) (size : Int) :
    (Stm.seq (.move (.temp dst) x :: .move (.temp src) y :: copyWords dst src size)).Safe B D ∅ := by
  refine ((Stm.safe_move_temp hx dst).cons ((Stm.safe_move_temp
    (hy.mono Set.subset_union_left) src).cons (safe_copyWords ?_ ?_ size))).forget
  · simp
  · simp

lemma ready_saveFp (hs : Supports B scope) (n : Int) : (saveFp n).Safe B D ∅ := by
  have ha : (Exp.mem (.binop .sub (.name .stackPointer) (.const (.ofInt n)))).Ready B D :=
    ⟨hs.stackPointer, trivial⟩
  have hv : (Exp.name .framePointer).Ready B D := hs.framePointer
  exact Stm.safe_move_mem ha.safe hv.safe

lemma safe_arguments {xs : List (Temp × Exp)} {saves : List Stm}
    (h : ∀ x ∈ xs, x.2.Safe B D) (hs : ∀ s ∈ saves, ∀ D, s.Safe B D ∅) :
    (Stm.seq (xs.map (fun x => .move (.temp x.1) x.2) ++ saves)).Safe B D
      {t | t ∈ xs.map Prod.fst} := by
  induction xs generalizing D with
  | nil =>
    intro n K hD
    obtain ⟨Z, hZ, -, hl⟩ := Stm.safe_seq (fun s hm => hs s hm D) n K hD
    exact ⟨Z, hZ, by simp, hl⟩
  | cons x xs ih =>
    rw [List.forall_mem_cons] at h
    have hrest := ih fun y hy => (h.2 y hy).mono (Set.subset_union_left (t := {x.1}))
    intro n K hD
    obtain ⟨Z, hZ, hset, hl⟩ := (Stm.safe_move_temp h.1 x.1).cons hrest n K hD
    refine ⟨Z, hZ, fun t ht => hset ?_, hl⟩
    simpa [or_comm] using ht

lemma safe_call (hs : Supports B scope) {c : Callee} {xs : List (Temp × Exp)}
    (hf : c.label ∈ B.functions) (hl : c.link.Ready B ∅) (h : ∀ x ∈ xs, x.2.Safe B ∅) :
    (c.call xs).Safe B ∅ := by
  refine Exp.Safe.eseq (safe_arguments h ?_) (Exp.AllSafe.call hf (Exp.allSafe_of_forall ?_))
  · intro s hm D
    obtain ⟨n, -, rfl⟩ := List.mem_map.mp hm
    exact ready_saveFp hs n
  · rw [List.forall_mem_cons]
    refine ⟨(hl.mono (Set.empty_subset _)).safe, fun x hm => ?_⟩
    obtain ⟨y, hy, rfl⟩ := List.mem_map.mp hm
    have ht : (Exp.temp y.1).Ready B (∅ ∪ {t | t ∈ xs.map Prod.fst}) :=
      .inr (List.mem_map_of_mem hy)
    exact ht.safe

lemma safe_block {init : List Stm} {last : Option Fragment} (hi : ∀ s ∈ init, s.Safe B ∅ ∅)
    (hl : ∀ r ∈ last, r.Safe B) : (block init last).Safe B := by
  cases last with
  | none => exact Exp.Ready.safe trivial
  | some r =>
    have hr := hl r rfl
    cases r with
    | value x => exact Exp.Safe.eseq (Stm.safe_seq hi) (Exp.Safe.mono hr Set.subset_union_left)
    | effect s =>
      apply Stm.safe_seq
      rw [List.forall_mem_append, List.forall_mem_singleton]
      exact ⟨hi, hr⟩

lemma callee_ready (hs : Supports B scope) {n : Node} {f : String} {c : Callee} {st st' : State}
    (h : (callee scope level n f).run st = .ok (c, st')) :
    c.label ∈ B.functions ∧ c.link.Ready B ∅ := by
  cases hb : scope.tables.bindings[n.id]? with
  | some target =>
    obtain ⟨frame, hf, -, rfl, -⟩ := (callee_bound_ok hb).mp h
    refine ⟨hs.function target frame hf, ?_⟩
    simp only [linkOf]
    split
    · trivial
    · exact ready_staticLink hs _
  | none =>
    obtain ⟨i, -, rfl, -⟩ := (callee_free_ok hb).mp h
    exact ⟨hs.intrinsic i, trivial⟩

end Parts

mutual

lemma expr_safe (hs : Supports B scope) (e : Expr) {level : Nat} {st st' : State} {r : Fragment}
    (hd : Defines B st') (h : (expr scope level e).run st = .ok (r, st')) : r.Safe B := by
  cases e with
  | literal n v =>
    cases v with
    | integer w =>
      obtain ⟨rfl, -⟩ := expr_integer_ok.mp h
      exact Exp.Ready.safe trivial
    | logical b =>
      obtain ⟨rfl, -⟩ := expr_logical_ok.mp h
      exact Exp.Ready.safe trivial
    | string text =>
      obtain ⟨rfl, rfl⟩ := expr_string_ok.mp h
      have hl : Label.anonymous st.labels.used ∈ B.names :=
        hd (text.utf8ByteSize + 1) _ text (by simp)
      exact Exp.Ready.safe (x := .name _) hl
  | name n x =>
    obtain ⟨_, _, type, -, ha, -, -, rfl, -⟩ := expr_name_ok.mp h
    exact (ready_variableValue (ready_addressOf hs ha) type _).safe
  | unary n op x =>
    obtain ⟨_, hx, rfl⟩ := expr_unary_ok.mp h
    exact safe_unary (expr_safe hs x hd hx).toExp op
  | binary n op x y =>
    cases op with
    | compute op =>
      obtain ⟨_, _, _, hx, hy, rfl⟩ := expr_compute_ok.mp h
      have hd₁ := hd.before_items (expr_emits y hy)
      exact (expr_safe hs x hd₁ hx).toExp.binop (expr_safe hs y hd hy).toExp op
    | index =>
      obtain ⟨_, type, -, -, _, _, _, hx, hy, rfl⟩ := expr_index_ok.mp h
      have hd₁ := hd.before_items (expr_emits y hy)
      exact safe_element (expr_safe hs x hd₁ hx).toExp (expr_safe hs y hd hy).toExp type
    | assign =>
      obtain ⟨type, -, h⟩ := expr_assign_ok.mp h
      split at h
      · obtain ⟨-, _, _, _, hx, hy, rfl⟩ := h
        have hd₁ := hd.before_items (expr_emits y hy)
        exact safe_copy (expr_safe hs x hd₁ hx).toExp (expr_safe hs y hd hy).toExp type.size
      · obtain ⟨_, _, _, hx, ha, hy, rfl⟩ := h
        have hd₁ := hd.before_items (expr_emits y hy)
        exact Stm.safe_assign ha (expr_safe hs x hd₁ hx).toExp (expr_safe hs y hd hy).toExp
  | call n f args =>
    obtain ⟨c, _, xs, hc, hx, rfl⟩ := expr_call_ok.mp h
    obtain ⟨hf, hl⟩ := callee_ready hs hc
    exact safe_call hs hf hl (arguments_safe hs args hd hx)
  | block n es =>
    obtain ⟨_, _, hb, rfl⟩ := expr_block_ok.mp h
    obtain ⟨hi, hl⟩ := body_safe hs es hd hb
    exact safe_block hi hl
  | ifThen n c p =>
    obtain ⟨_, _, _, hc, hp, rfl⟩ := expr_ifThen_ok.mp h
    have hd₁ := hd.before_items (expr_emits p hp).after_skip
    exact Stm.safe_ifThen (expr_safe hs c hd₁ hc).toExp (expr_safe hs p hd hp).toStm
  | ifElse n c p q =>
    obtain ⟨_, _, _, _, _, hc, hp, hq, rfl⟩ := expr_ifElse_ok.mp h
    have hd₂ := hd.before_items (expr_emits q hq)
    have hd₁ := hd₂.before_items (expr_emits p hp).after_skip
    exact Stm.safe_ifElse (expr_safe hs c hd₁ hc).toExp (expr_safe hs p hd₂ hp).toStm
      (expr_safe hs q hd hq).toStm
  | whileLoop n c b =>
    obtain ⟨_, _, _, hc, hb, rfl⟩ := expr_whileLoop_ok.mp h
    have hd₁ := hd.before_items (expr_emits b hb)
    exact Stm.safe_whileLoop (expr_safe hs c hd₁ hc).toExp (expr_safe hs b hd hb).toStm
  | forLoop n c low high step b =>
    obtain ⟨_, _, _, _, _, _, _, _, _, hc, ha, hl, hh, ht, hb, rfl⟩ := expr_forLoop_ok.mp h
    have hd₄ := hd.before_items (expr_emits b hb)
    have hd₃ := hd₄.before_items (expr_emits step ht)
    have hd₂ := hd₃.before_items (expr_emits high hh)
    have hd₁ := hd₂.before_items (expr_emits low hl)
    exact Stm.safe_forLoop ha (expr_safe hs c hd₁ hc).toExp (expr_safe hs low hd₂ hl).toExp
      (expr_safe hs high hd₃ hh).toExp (expr_safe hs step hd₄ ht).toExp (expr_safe hs b hd hb).toStm
  | whereDefs n x m ds =>
    obtain ⟨_, -, hx⟩ := expr_whereDefs_ok.mp h
    exact expr_safe hs x hd hx

lemma arguments_safe (hs : Supports B scope) (es : List Expr) {level : Nat} {st st' : State}
    {xs : List (Temp × Exp)} (hd : Defines B st')
    (h : (arguments scope level es).run st = .ok (xs, st')) : ∀ x ∈ xs, x.2.Safe B ∅ := by
  cases es with
  | nil =>
    obtain ⟨rfl, -⟩ := arguments_nil_ok.mp h
    exact List.forall_mem_nil _
  | cons e es =>
    obtain ⟨_, _, _, he, hes, rfl⟩ := arguments_cons_ok.mp h
    have hd₁ := hd.before_items (arguments_emits es hes).after_temp
    exact List.forall_mem_cons.mpr ⟨(expr_safe hs e hd₁ he).toExp, arguments_safe hs es hd hes⟩

lemma body_safe (hs : Supports B scope) (es : List Expr) {level : Nat} {st st' : State}
    {init : List Stm} {last : Option Fragment} (hd : Defines B st')
    (h : (body scope level es).run st = .ok ((init, last), st')) :
    (∀ s ∈ init, s.Safe B ∅ ∅) ∧ ∀ r ∈ last, r.Safe B := by
  match es with
  | [] =>
    obtain ⟨rfl, rfl, -⟩ := body_nil_ok.mp h
    exact ⟨List.forall_mem_nil _, fun r hr => nomatch hr⟩
  | [e] =>
    obtain ⟨r, he, rfl, rfl⟩ := body_singleton_ok.mp h
    refine ⟨List.forall_mem_nil _, fun q hq => ?_⟩
    obtain rfl := Option.some.inj hq
    exact expr_safe hs e hd he
  | e :: e' :: es =>
    obtain ⟨r, _, rest, he, hes, rfl⟩ := body_cons_ok.mp h
    have hd₁ := hd.before_items (body_emits (e' :: es) hes)
    obtain ⟨hi, hl⟩ := body_safe hs (e' :: es) hd hes
    exact ⟨List.forall_mem_cons.mpr ⟨(expr_safe hs e hd₁ he).toStm, hi⟩, hl⟩

end

end Lowering

end BlockLang
