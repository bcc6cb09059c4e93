import BlockLang.Proofs.LoweringCases
import BlockLang.Proofs.Occurrences

namespace BlockLang

open Source Code

def Source.Expr.isText : Expr → Bool
  | .literal _ (.string _) => true
  | _ => false

namespace Lowering

inductive EmitsItem (scope : Scope) : Item → State → State → Prop where
  | defn {d : Def} {st st' : State} (h : (defn scope d).run st = .ok ((), st')) :
    EmitsItem scope (.defn d) st st'
  | text {n : Node} {text : String} {st : State} :
    EmitsItem scope (.expr (.literal n (.string text))) st { st.skip 1 with
      chunks := st.chunks.push
        (.data (.global (text.utf8ByteSize + 1) (.anonymous st.labels.used)) text) }
  | expr {e : Expr} {st : State} (h : e.isText = false) : EmitsItem scope (.expr e) st st

structure Idle (st st' : State) : Prop where
  chunks : st'.chunks = st.chunks
  labels : st.labels.used ≤ st'.labels.used

lemma Idle.refl {st : State} : Idle st st := ⟨rfl, Nat.le_refl _⟩

lemma Idle.trans {st st₁ st' : State} (h : Idle st st₁) (h' : Idle st₁ st') : Idle st st' :=
  ⟨h'.chunks.trans h.chunks, Nat.le_trans h.labels h'.labels⟩

inductive Emits (scope : Scope) : List Item → State → State → Prop where
  | nil {st st' : State} (h : Idle st st') : Emits scope [] st st'
  | cons {i : Item} {is : List Item} {st st₁ st₂ st' : State} (h : Idle st st₁)
    (hi : EmitsItem scope i st₁ st₂) (hs : Emits scope is st₂ st') : Emits scope (i :: is) st st'

variable {scope : Scope} {level : Nat}

namespace Emits

variable {is js : List Item} {st st₁ st₂ st' : State}

lemma after (h : Emits scope is st₁ st') (hc : Idle st st₁) : Emits scope is st st' := by
  cases h with
  | nil h => exact .nil (hc.trans h)
  | cons h hi hs => exact .cons (hc.trans h) hi hs

lemma after_skip {k : Nat} (h : Emits scope is (st.skip k) st') : Emits scope is st st' :=
  h.after ⟨rfl, Nat.le_add_right ..⟩

lemma after_temp {t : Temp} (h : Emits scope is { st with nextTemp := t } st') :
    Emits scope is st st' :=
  h.after ⟨rfl, Nat.le_refl _⟩

lemma append (h : Emits scope is st st₁) (h' : Emits scope js st₁ st') :
    Emits scope (is ++ js) st st' := by
  induction h with
  | nil h => exact h'.after h
  | cons h hi _ ih => exact .cons h hi (ih h')

lemma expr {e : Expr} (h : Emits scope is st st') (he : e.isText = false) :
    Emits scope (is ++ [.expr e]) st st' :=
  h.append (.cons .refl (.expr he) (.nil .refl))

end Emits

lemma defs_emits {ds : List Def} {st st' : State} {u : Unit}
    (h : (defs scope ds).run st = .ok (u, st')) : Emits scope (ds.map .defn) st st' := by
  induction ds generalizing st with
  | nil =>
    obtain rfl := defs_nil_ok.mp h
    exact .nil .refl
  | cons d ds ih =>
    obtain ⟨st₁, hd, hds⟩ := defs_cons_ok.mp h
    exact .cons .refl (.defn hd) (ih hds)

mutual

lemma expr_emits (e : Expr) {level : Nat} {st st' : State} {r : Fragment}
    (h : (expr scope level e).run st = .ok (r, st')) : Emits scope e.items st st' := by
  cases e with
  | literal n v =>
    cases v with
    | integer w =>
      obtain ⟨-, rfl⟩ := expr_integer_ok.mp h
      exact .cons .refl (.expr rfl) (.nil .refl)
    | logical b =>
      obtain ⟨-, rfl⟩ := expr_logical_ok.mp h
      exact .cons .refl (.expr rfl) (.nil .refl)
    | string text =>
      obtain ⟨-, rfl⟩ := expr_string_ok.mp h
      exact .cons .refl .text (.nil .refl)
  | name n x =>
    obtain ⟨_, _, _, -, -, -, -, -, rfl⟩ := expr_name_ok.mp h
    exact .cons .refl (.expr rfl) (.nil .refl)
  | unary n op x =>
    obtain ⟨_, hx, -⟩ := expr_unary_ok.mp h
    exact (expr_emits x hx).expr rfl
  | binary n op x y =>
    cases op with
    | compute op =>
      obtain ⟨_, _, _, hx, hy, -⟩ := expr_compute_ok.mp h
      exact ((expr_emits x hx).append (expr_emits y hy)).expr rfl
    | index =>
      obtain ⟨_, _, -, -, _, _, _, hx, hy, -⟩ := expr_index_ok.mp h
      exact ((expr_emits x hx).append (expr_emits y hy)).expr rfl
    | assign =>
      obtain ⟨type, -, h⟩ := expr_assign_ok.mp h
      split at h
      · obtain ⟨-, _, _, _, hx, hy, -⟩ := h
        exact ((expr_emits x hx).after_temp.append (expr_emits y hy)).expr rfl
      · obtain ⟨_, _, _, hx, -, hy, -⟩ := h
        exact ((expr_emits x hx).append (expr_emits y hy)).expr rfl
  | call n f args =>
    obtain ⟨c, st₁, xs, hc, hx, -⟩ := expr_call_ok.mp h
    obtain rfl := callee_state hc
    exact (arguments_emits args hx).expr rfl
  | block n es =>
    obtain ⟨_, _, hb, -⟩ := expr_block_ok.mp h
    exact (body_emits es hb).expr rfl
  | ifThen n c p =>
    obtain ⟨_, _, _, hc, hp, -⟩ := expr_ifThen_ok.mp h
    exact ((expr_emits c hc).append (expr_emits p hp).after_skip).expr rfl
  | ifElse n c p q =>
    obtain ⟨_, _, _, _, _, hc, hp, hq, -⟩ := expr_ifElse_ok.mp h
    exact ((expr_emits c hc).append
      ((expr_emits p hp).after_skip.append (expr_emits q hq))).expr rfl
  | whileLoop n c b =>
    obtain ⟨_, _, _, hc, hb, -⟩ := expr_whileLoop_ok.mp h
    exact ((expr_emits c hc).after_skip.append (expr_emits b hb)).expr rfl
  | forLoop n c low high step b =>
    obtain ⟨_, _, _, _, _, _, _, _, _, hc, -, hl, hh, hs, hb, -⟩ := expr_forLoop_ok.mp h
    exact ((expr_emits c hc).after_skip.append ((expr_emits low hl).append
      ((expr_emits high hh).append ((expr_emits step hs).append (expr_emits b hb))))).expr rfl
  | whereDefs n x m ds =>
    obtain ⟨_, hd, hx⟩ := expr_whereDefs_ok.mp h
    exact ((defs_emits hd).append (expr_emits x hx)).expr rfl

lemma arguments_emits (es : List Expr) {level : Nat} {st st' : State} {xs : List (Temp × Exp)}
    (h : (arguments scope level es).run st = .ok (xs, st')) :
    Emits scope (Expr.itemsAll es) st st' := by
  cases es with
  | nil =>
    obtain ⟨-, rfl⟩ := arguments_nil_ok.mp h
    exact .nil .refl
  | cons e es =>
    obtain ⟨_, _, _, he, hes, -⟩ := arguments_cons_ok.mp h
    exact (expr_emits e he).append (arguments_emits es hes).after_temp

lemma body_emits (es : List Expr) {level : Nat} {st st' : State} {init : List Stm}
    {last : Option Fragment} (h : (body scope level es).run st = .ok ((init, last), st')) :
    Emits scope (Expr.itemsAll es) st st' := by
  match es with
  | [] =>
    obtain ⟨-, -, rfl⟩ := body_nil_ok.mp h
    exact .nil .refl
  | [e] =>
    obtain ⟨_, he, -⟩ := body_singleton_ok.mp h
    exact (expr_emits e he).append (.nil .refl)
  | e :: e' :: es =>
    obtain ⟨_, _, _, he, hes, -⟩ := body_cons_ok.mp h
    exact (expr_emits e he).append (body_emits (e' :: es) hes)

end

inductive Emission (scope : Scope) (all : List Chunk) : Item → List Chunk → Prop where
  | code {n : Node} {x : String} {ps : List Param} {t : TypeExpr} {b : Expr} {frame : Frame}
    {r : Fragment} {st st' : State} (hf : scope.frames[n.id]? = some frame)
    (hr : (expr scope frame.level b).run st = .ok (r, st')) (hc : st'.chunks.toList ⊆ all) :
    Emission scope all (.defn (.func n x ps t b))
      [.code frame ((returning r.toExp).linearize st'.nextTemp).1]
  | global {n : Node} {x : String} {t : TypeExpr} {size : Int} {label : Label}
    (ha : scope.accesses[n.id]? = some (.global size label)) :
    Emission scope all (.defn (.var n x t)) [.global (.global size label)]
  | stack {n : Node} {x : String} {t : TypeExpr} {size offset : Int} {level : Nat}
    (ha : scope.accesses[n.id]? = some (.stack size offset level)) :
    Emission scope all (.defn (.var n x t)) []
  | param {n : Node} {x : String} {t : TypeExpr} {size offset : Int} {level : Nat}
    (ha : scope.accesses[n.id]? = some (.param size offset level)) :
    Emission scope all (.defn (.var n x t)) []
  | type {n : Node} {x : String} {t : TypeExpr} : Emission scope all (.defn (.type n x t)) []
  | text {n : Node} {text : String} {k : Nat} :
    Emission scope all (.expr (.literal n (.string text)))
      [.data (.global (text.utf8ByteSize + 1) (.anonymous k)) text]
  | expr {e : Expr} (h : e.isText = false) : Emission scope all (.expr e) []

lemma Emission.mono {all all' : List Chunk} {i : Item} {cs : List Chunk}
    (h : Emission scope all i cs) (hs : all ⊆ all') : Emission scope all' i cs := by
  cases h with
  | code hf hr hc => exact .code hf hr (List.Subset.trans hc hs)
  | global ha => exact .global ha
  | stack ha => exact .stack ha
  | param ha => exact .param ha
  | type => exact .type
  | text => exact .text
  | expr h => exact .expr h

lemma forall₂_flatMap {α β : Type} {R : α → β → Prop} {φ : Occurrence → List α} {ψ : Chunk → List β}
    {all : List Chunk} {os : List Occurrence} {css : List (List Chunk)}
    (h : List.Forall₂ (fun o cs => Emission scope all o.item cs) os css)
    (hR : ∀ o ∈ os, ∀ cs, Emission scope all o.item cs → List.Forall₂ R (φ o) (cs.flatMap ψ)) :
    List.Forall₂ R (os.flatMap φ) (css.flatten.flatMap ψ) := by
  induction h with
  | nil => exact .nil
  | @cons o cs os css ho _ ih =>
    rw [List.forall_mem_cons] at hR
    rw [List.flatMap_cons, List.flatten_cons, List.flatMap_append]
    exact List.rel_append (hR.1 cs ho) (ih hR.2)

def Accounts (scope : Scope) (os : List Occurrence) (st st' : State) : Prop :=
  ∃ css, List.Forall₂ (fun o cs => Emission scope st'.chunks.toList o.item cs) os css ∧
    st'.chunks.toList = st.chunks.toList ++ css.flatten

namespace Accounts

variable {os os' : List Occurrence} {st st₁ st' : State}

lemma of_eq (h : st'.chunks = st.chunks) : Accounts scope [] st st' :=
  ⟨[], .nil, by simp [h]⟩

lemma append (h : Accounts scope os st st₁) (h' : Accounts scope os' st₁ st') :
    Accounts scope (os ++ os') st st' := by
  obtain ⟨css, he, hc⟩ := h
  obtain ⟨css', he', hc'⟩ := h'
  have hs : st₁.chunks.toList ⊆ st'.chunks.toList := hc' ▸ List.subset_append_left ..
  refine ⟨css ++ css', List.rel_append (he.imp fun _ _ h => h.mono hs) he', ?_⟩
  rw [hc', hc, List.flatten_append, List.append_assoc]

lemma push {o : Occurrence} {c : Chunk} (he : Emission scope st'.chunks.toList o.item [c])
    (hc : st'.chunks = st.chunks.push c) : Accounts scope [o] st st' :=
  ⟨[[c]], .cons he .nil, by simp [hc]⟩

lemma stay {o : Occurrence} (he : Emission scope st.chunks.toList o.item []) : Accounts scope [o] st st :=
  ⟨[[]], .cons he .nil, by simp⟩

lemma origin (h : Accounts scope os st st') {c : Chunk} (hc : c ∈ st'.chunks.toList) :
    c ∈ st.chunks.toList ∨ ∃ o ∈ os, ∃ cs, Emission scope st'.chunks.toList o.item cs ∧ c ∈ cs := by
  obtain ⟨css, he, hs⟩ := h
  rw [hs, List.mem_append, List.mem_flatten] at hc
  refine hc.imp_right ?_
  rintro ⟨cs, hm, hc⟩
  obtain ⟨i, hi, rfl⟩ := List.mem_iff_getElem.mp hm
  have hlt : i < os.length := by
    rw [he.length_eq]
    exact hi
  exact ⟨os[i], List.getElem_mem hlt, _, he.get hlt hi, hc⟩

lemma emission (h : Accounts scope os st st') {o : Occurrence} (ho : o ∈ os) :
    ∃ cs, Emission scope st'.chunks.toList o.item cs ∧ ∀ c ∈ cs, c ∈ st'.chunks.toList := by
  obtain ⟨css, he, hs⟩ := h
  obtain ⟨i, hi, rfl⟩ := List.mem_iff_getElem.mp ho
  have hlt : i < css.length := by
    rw [← he.length_eq]
    exact hi
  refine ⟨css[i], he.get hi hlt, fun c hc => ?_⟩
  rw [hs]
  exact List.mem_append_right _ (List.mem_flatten_of_mem (List.getElem_mem hlt) hc)

end Accounts

lemma Emits.accounts {is : List Item} {outer : List NodeId} {st st' : State}
    (h : Emits scope is st st')
    (hd : ∀ d, .defn d ∈ is → ∀ ⦃st st'⦄, (defn scope d).run st = .ok ((), st') →
      Accounts scope (d.occurrences outer) st st') :
    Accounts scope (is.flatMap (Item.occurrences outer)) st st' := by
  induction h with
  | nil h => exact .of_eq h.chunks
  | @cons i is st st₁ st₂ st' h hi _ ih =>
    have hi' : Accounts scope (i.occurrences outer) st₁ st₂ := by
      cases hi with
      | defn hi => exact hd _ (List.mem_cons_self ..) hi
      | text => exact .push .text rfl
      | expr hi => exact .stay (.expr hi)
    have hs := ih fun d hm => hd d (List.mem_cons_of_mem _ hm)
    exact (Accounts.of_eq h.chunks).append (hi'.append hs)

lemma defn_accounts (d : Def) : ∀ (outer : List NodeId) ⦃st st' : State⦄,
    (defn scope d).run st = .ok ((), st') → Accounts scope (d.occurrences outer) st st' := by
  induction d using Def.nested with
  | h d ih =>
  intro outer st st' h
  cases d with
  | var n x t =>
    obtain ⟨access, ha, rfl⟩ := defn_var_ok.mp h
    cases access with
    | global size label => exact .push (.global ha) rfl
    | stack size offset target => exact .stay (.stack ha)
    | param size offset target => exact .stay (.param ha)
  | func n x ps t b =>
    obtain ⟨frame, r, st₁, hf, hr, rfl⟩ := defn_func_ok.mp h
    have hb := (expr_emits b hr).accounts fun d hd => ih d hd (n.id :: outer)
    rw [← Expr.occurrences_eq] at hb
    refine hb.append (.push (.code hf hr ?_) rfl)
    simp
  | type n x t =>
    obtain rfl := defn_type_ok.mp h
    exact .stay .type

theorem defs_accounts {ds : List Def} {st st' : State} {u : Unit}
    (h : (defs scope ds).run st = .ok (u, st')) (outer : List NodeId) :
    Accounts scope (Def.occurrencesAll outer ds) st st' := by
  have ha := (defs_emits h).accounts fun d _ => defn_accounts d outer
  rw [Def.occurrencesAll_eq]
  rwa [List.flatMap_map] at ha

end Lowering

end BlockLang
