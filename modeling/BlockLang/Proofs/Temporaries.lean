import BlockLang.Proofs.Compilation
import BlockLang.Proofs.LoweredTrees
import BlockLang.Proofs.TemporaryUses

/-! Temporaries are numbered one after the other over the whole of a program. As long as the numbers
last, no two statements set the same one. -/

namespace BlockLang

open Source Code Lowering

namespace Source

def Item.isIndex : Item → Bool
  | .expr (.binary _ .index _ _) => true
  | _ => false

def Unindexed (is : List Item) : Prop := ∀ i ∈ is, i.isIndex = false

lemma Unindexed.mono {is js : List Item} (h : Unindexed js) (hs : is ⊆ js) : Unindexed is :=
  fun i hi => h i (hs hi)

lemma Unindexed.of_part {e x : Expr} (h : Unindexed e.items) (hx : .expr x ∈ e.items) :
    Unindexed x.items :=
  h.mono (e.items_subset hx)

end Source

namespace Code

def Exp.Sets (x : Exp) (ts : List Temp) : Prop :=
  ∀ n t, (settings (x.operand n).before).count t = ts.count t + (fresh n x.saves).count t

def Stm.Sets (s : Stm) (ts : List Temp) : Prop :=
  ∀ n t, (settings (s.flat n).code).count t = ts.count t + (fresh n s.saves).count t

section Sets

variable {x y : Exp} {s : Stm} {ss : List Stm} {ts us : List Temp}

lemma Split.count_hold (r : Split Exp) (effects : Bool) (t : Temp) :
    (settings (r.hold effects).before).count t =
      (settings r.before).count t +
        (fresh r.next (effects && !r.value.isConstant).toNat).count t := by
  unfold Split.hold
  split
  · rename_i h
    simp [Split.save, h]
  · rename_i h
    simp only [Bool.not_eq_true] at h
    simp [h]

lemma Exp.Sets.hold (h : x.Sets ts) (effects : Bool) (n t : Temp) :
    (settings ((x.operand n).hold effects).before).count t =
      ts.count t + (fresh n (x.saves + (effects && !x.isFixed).toNat)).count t := by
  rw [Split.count_hold, h n t, Exp.operand_value_isConstant, Exp.operand_next, fresh_add,
    List.count_append, Nat.add_assoc]

lemma Exp.sets_of_isPure (h : x.isPure = true) : x.Sets [] := by
  intro n t
  rw [Exp.operand_of_isPure n h, Exp.saves_of_isPure h]
  rfl

lemma Exp.Sets.binop (hx : x.Sets ts) (hy : y.Sets us) (op : Op) :
    (Exp.binop op x y).Sets (ts ++ us) := by
  intro n t
  rw [Exp.operand_binop, Exp.saves_binop, fresh_add, settings_append, List.count_append,
    List.count_append, List.count_append, hx.hold, hy n t, Exp.operand_next]
  omega

lemma Exp.Sets.mem (hx : x.Sets ts) : (Exp.mem x).Sets ts := by
  intro n t
  rw [Exp.operand_mem, Exp.saves_mem]
  exact hx n t

lemma Exp.sets_call {f : Label} {args : List Exp} (h : args.all Exp.isPure = true) :
    (Exp.call f args).Sets [] := by
  intro n t
  rw [Exp.operand_call, Exp.saves_call, Exp.splitAll_of_isPure n h, Exp.savesAll_of_isPure h]
  simp

lemma Stm.Sets.eseq (hs : s.Sets ts) (hx : x.Sets us) : (Exp.eseq s x).Sets (ts ++ us) := by
  intro n t
  rw [Exp.operand_eseq, Exp.saves_eseq, fresh_add, settings_append, List.count_append,
    List.count_append, List.count_append, hs n t, hx _ t, Stm.flat_next]
  omega

lemma Stm.sets_move_temp (hc : x.isCall = false) (hx : x.Sets ts) (t : Temp) :
    (Stm.move (.temp t) x).Sets (t :: ts) := by
  intro n u
  rw [Stm.flat_move_temp t n hc, Stm.saves_move_temp t hc, settings_append, List.count_append,
    hx n u, settings_temp, List.count_cons, List.count_cons, List.count_nil]
  omega

lemma Stm.sets_move_mem (hx : x.Sets ts) (hy : y.Sets us) :
    (Stm.move (.mem x) y).Sets (ts ++ us) := by
  intro n t
  rw [Stm.flat_move_mem, Stm.saves_move_mem, fresh_add]
  simp only [settings_append, settings_mem, List.count_append, List.count_nil, hx.hold, hy n t,
    Exp.operand_next]
  omega

lemma Stm.sets_exp (hc : x.isCall = false) (hx : x.Sets ts) : (Stm.exp x).Sets ts := by
  intro n t
  rw [Stm.flat_exp n hc, Stm.saves_exp hc, settings_append, settings_discard, List.append_nil]
  exact hx n t

lemma Stm.sets_cjump (hx : x.Sets ts) (l l' : Label) : (Stm.cjump x l l').Sets ts := by
  intro n t
  rw [Stm.flat_cjump, Stm.saves_cjump, settings_append, settings_cjump, List.append_nil]
  exact hx n t

lemma Stm.sets_label (l : Label) : (Stm.label l).Sets [] := fun _ _ => rfl

lemma Stm.sets_jump (l : Label) : (Stm.jump l).Sets [] := fun _ _ => rfl

lemma Stm.sets_nil : (Stm.seq []).Sets [] := fun _ _ => rfl

lemma Stm.Sets.cons (hs : s.Sets ts) (hss : (Stm.seq ss).Sets us) :
    (Stm.seq (s :: ss)).Sets (ts ++ us) := by
  intro n t
  rw [Stm.flat_seq_cons, Stm.saves_seq_cons, fresh_add, settings_append, List.count_append,
    List.count_append, List.count_append, hs n t, hss _ t, Stm.flat_next]
  omega

lemma Stm.Sets.snoc (hss : (Stm.seq ss).Sets ts) (hs : s.Sets us) :
    (Stm.seq (ss ++ [s])).Sets (ts ++ us) := by
  intro n t
  rw [Stm.flat_seq_append, Stm.saves_seq_append, fresh_add, settings_append, List.count_append,
    List.count_append, List.count_append, hss n t, hs _ t, Stm.flat_next]
  omega

lemma Exp.Sets.cons (hs : s.Sets ts) (hx : (Exp.eseq (.seq ss) x).Sets us) :
    (Exp.eseq (.seq (s :: ss)) x).Sets (ts ++ us) := by
  intro n t
  have h := hx (s.flat n).next t
  rw [Exp.operand_eseq, Exp.saves_eseq] at h ⊢
  rw [Stm.flat_seq_cons, Stm.saves_seq_cons, Nat.add_assoc, fresh_add]
  simp only [settings_append, List.count_append, ← Stm.flat_next, hs n t] at h ⊢
  omega

lemma Stm.sets_of_eseq (hx : x.isConstant = true) (h : (Exp.eseq s x).Sets ts) : s.Sets ts := by
  intro n t
  have hp := Exp.isPure_of_isConstant hx
  have h := h n t
  rw [Exp.operand_eseq, Exp.saves_eseq, Exp.operand_of_isPure _ hp, Exp.saves_of_isPure hp] at h
  simpa using h

lemma Stm.Sets.effect (h : s.Sets ts) : (Fragment.effect s).toExp.Sets ts := by
  have hv : Fragment.void.Sets [] := Exp.sets_of_isPure rfl
  have he := h.eseq hv
  rwa [List.append_nil] at he

lemma Exp.Sets.count_eq (h : x.Sets ts) (h' : x.Sets us) (t : Temp) : ts.count t = us.count t :=
  Nat.add_right_cancel ((h (.ofNat 0) t).symm.trans (h' (.ofNat 0) t))

end Sets

def Chunk.statements : Chunk → List Stm
  | .code _ body => body.statements
  | .data _ _ | .global _ => []

def Program.statements (p : Program) : List Stm := p.chunks.flatMap Chunk.statements

end Code

namespace Lowering

/-- Between two states of the lowering, the temporaries that were handed out are those that the new
chunks set, and those in `ts`. -/
def Numbers (st st' : State) (ts : List Temp) : Prop :=
  ∃ k, st'.nextTemp = st.nextTemp.advance k ∧
    ∀ t, (settings (st'.chunks.toList.flatMap Chunk.statements)).count t + ts.count t =
      (settings (st.chunks.toList.flatMap Chunk.statements)).count t + (fresh st.nextTemp k).count t

namespace Numbers

variable {st st₁ st' : State} {ts us : List Temp}

lemma of_eq (hn : st'.nextTemp = st.nextTemp) (hc : st'.chunks = st.chunks) : Numbers st st' [] :=
  ⟨0, by rw [hn, Ident.advance_zero], fun t => by rw [hc]; rfl⟩

lemma append (h : Numbers st st₁ ts) (h' : Numbers st₁ st' us) : Numbers st st' (ts ++ us) := by
  obtain ⟨j, hj, hc⟩ := h
  obtain ⟨k, hk, hc'⟩ := h'
  refine ⟨j + k, by rw [hk, hj, Ident.advance_advance], fun t => ?_⟩
  have h := hc t
  have h' := hc' t
  rw [hj] at h'
  rw [fresh_add, List.count_append, List.count_append]
  omega

lemma of_count (h : Numbers st st' ts) (hc : ∀ t, ts.count t = us.count t) : Numbers st st' us := by
  obtain ⟨k, hk, hn⟩ := h
  exact ⟨k, hk, fun t => by rw [← hc]; exact hn t⟩

lemma next (st : State) : Numbers st { st with nextTemp := st.nextTemp.next } [st.nextTemp] :=
  ⟨1, rfl, fun t => by rw [fresh_one]⟩

lemma of_skip {k : Nat} (h : Numbers (st.skip k) st' ts) : Numbers st st' ts := h

lemma push {c : Chunk} {k : Nat} (h : Numbers st st₁ ts) (hn : st'.nextTemp = st₁.nextTemp.advance k)
    (hc : st'.chunks = st₁.chunks.push c)
    (hs : ∀ t, (settings c.statements).count t = ts.count t + (fresh st₁.nextTemp k).count t) :
    Numbers st st' [] := by
  obtain ⟨j, hj, hcount⟩ := h
  refine ⟨j + k, by rw [hn, hj, Ident.advance_advance], fun t => ?_⟩
  have h := hcount t
  have hs := hs t
  rw [hj] at hs
  rw [hc, Array.toList_push, List.flatMap_append, List.flatMap_singleton, settings_append,
    List.count_append, fresh_add, List.count_append, List.count_nil]
  omega

end Numbers

section Roots

variable {scope : Scope} {level : Nat}

lemma expr_name_of_isAssignable (e : Expr) (hi : Unindexed e.items) {st st' : State} {r : Fragment}
    (h : (expr scope level e).run st = .ok (r, st')) (ha : r.toExp.isAssignable = true) :
    ∃ n x st₁ st₂, .expr (.name n x) ∈ e.items ∧
      (expr scope level (.name n x)).run st₁ = .ok (.value r.toExp, st₂) := by
  cases e with
  | literal n v =>
    cases v with
    | integer w =>
      obtain ⟨rfl, -⟩ := expr_integer_ok.mp h
      cases ha
    | logical b =>
      obtain ⟨rfl, -⟩ := expr_logical_ok.mp h
      cases ha
    | string text =>
      obtain ⟨rfl, -⟩ := expr_string_ok.mp h
      cases ha
  | name n x =>
    have hr := h
    obtain ⟨_, _, _, -, -, -, -, rfl, -⟩ := expr_name_ok.mp h
    exact ⟨n, x, st, st', Expr.mem_items _, hr⟩
  | unary n op x =>
    obtain ⟨q, hx, rfl⟩ := expr_unary_ok.mp h
    cases op with
    | plus =>
      have hpart : .expr x ∈ (Expr.unary n .plus x).items := by simp [Expr.items, Expr.mem_items]
      obtain ⟨n', y, st₁, st₂, hm, hn⟩ := expr_name_of_isAssignable x (hi.of_part hpart) hx ha
      exact ⟨n', y, st₁, st₂, Expr.items_subset _ hpart hm, hn⟩
    | negate => cases ha
    | not => cases ha
  | binary n op x y =>
    cases op with
    | compute op =>
      obtain ⟨_, _, _, -, -, rfl⟩ := expr_compute_ok.mp h
      cases ha
    | index => cases hi _ (Expr.mem_items _)
    | assign =>
      obtain ⟨type, -, h⟩ := expr_assign_ok.mp h
      split at h
      · obtain ⟨-, _, _, _, -, -, rfl⟩ := h
        cases ha
      · obtain ⟨_, _, _, -, -, -, rfl⟩ := h
        cases ha
  | call n f args =>
    obtain ⟨_, _, _, -, -, rfl⟩ := expr_call_ok.mp h
    cases ha
  | block n es =>
    obtain ⟨init, last, -, rfl⟩ := expr_block_ok.mp h
    cases last with
    | none => cases ha
    | some q => cases q <;> cases ha
  | ifThen n c p =>
    obtain ⟨_, _, _, -, -, rfl⟩ := expr_ifThen_ok.mp h
    cases ha
  | ifElse n c p q =>
    obtain ⟨_, _, _, _, _, -, -, -, rfl⟩ := expr_ifElse_ok.mp h
    cases ha
  | whileLoop n c b =>
    obtain ⟨_, _, _, -, -, rfl⟩ := expr_whileLoop_ok.mp h
    cases ha
  | forLoop n c low high step b =>
    obtain ⟨_, _, _, _, _, _, _, _, _, -, -, -, -, -, -, rfl⟩ := expr_forLoop_ok.mp h
    cases ha
  | whereDefs n x m ds =>
    obtain ⟨_, -, hx⟩ := expr_whereDefs_ok.mp h
    have hpart : .expr x ∈ (Expr.whereDefs n x m ds).items := by simp [Expr.items, Expr.mem_items]
    obtain ⟨n', y, st₁, st₂, hm, hn⟩ := expr_name_of_isAssignable x (hi.of_part hpart) hx ha
    exact ⟨n', y, st₁, st₂, Expr.items_subset _ hpart hm, hn⟩

lemma mem_of_isAssignable {type : Ty} {access : Access}
    (h : (variableValue type (addressOf level access) access).isAssignable = true) :
    ∃ a : Exp, a.isPure = true ∧ variableValue type (addressOf level access) access = .mem a := by
  have hp := isPure_variableValue type (isPure_addressOf level access) access
  cases hv : variableValue type (addressOf level access) access with
  | mem a =>
    rw [hv] at hp
    exact ⟨a, hp, rfl⟩
  | temp t =>
    -- an address is a name, a static link or a sum
    have hno : ∀ k n, (Exp.staticLink k).offset n ≠ .temp t := by
      intro k n
      unfold Exp.offset
      split
      · cases k with
        | zero => exact Exp.noConfusion
        | succ k => exact Exp.noConfusion
      · exact Exp.noConfusion
    cases access with
    | global size label =>
      simp only [variableValue, addressOf] at hv
      split at hv
      · cases hv
      · cases hv
    | stack size offset target =>
      simp only [variableValue, addressOf] at hv
      split at hv
      · exact (hno _ _ hv).elim
      · cases hv
    | param size offset target => cases hv
  | _ =>
    rw [hv] at h
    cases h

lemma expr_mem_of_isAssignable {e : Expr} (hi : Unindexed e.items) {st st' : State} {r : Fragment}
    (h : (expr scope level e).run st = .ok (r, st')) (ha : r.toExp.isAssignable = true) :
    ∃ a : Exp, a.isPure = true ∧ r.toExp = .mem a := by
  obtain ⟨n, x, _, _, -, hn⟩ := expr_name_of_isAssignable e hi h ha
  obtain ⟨_, access, type, -, -, -, -, he, -⟩ := expr_name_ok.mp hn
  rw [Fragment.value.inj he] at ha ⊢
  exact mem_of_isAssignable ha

end Roots

structure Countable (scope : Scope) (is : List Item) : Prop where
  unindexed : Unindexed is
  defn : ∀ d, .defn d ∈ is → ∀ ⦃st st' : State⦄ ⦃u : Unit⦄,
    (defn scope d).run st = .ok (u, st') → Numbers st st' []

section Walk

variable {scope : Scope}

lemma Countable.mono {is js : List Item} (h : Countable scope js) (hs : is ⊆ js) :
    Countable scope is :=
  ⟨h.unindexed.mono hs, fun d hd => h.defn d (hs hd)⟩

lemma Countable.of_part {e x : Expr} (h : Countable scope e.items) (hx : .expr x ∈ e.items) :
    Countable scope x.items :=
  h.mono (e.items_subset hx)

lemma defs_numbers {ds : List Def} (hd : Countable scope (ds.map .defn)) {st st' : State} {u : Unit}
    (h : (defs scope ds).run st = .ok (u, st')) : Numbers st st' [] := by
  induction ds generalizing st with
  | nil =>
    obtain rfl := defs_nil_ok.mp h
    exact .of_eq rfl rfl
  | cons d ds ih =>
    obtain ⟨st₁, hd', hds⟩ := defs_cons_ok.mp h
    exact (hd.defn d (List.mem_cons_self ..) hd').append
      (ih (hd.mono (List.subset_cons_self ..)) hds)

lemma sets_saveFp (n : Int) : (saveFp n).Sets [] := by
  have h := Stm.sets_move_mem (x := .binop .sub (.name .stackPointer) (.const (.ofInt n)))
    (y := .name .framePointer) (Exp.sets_of_isPure rfl) (Exp.sets_of_isPure rfl)
  exact h

lemma sets_calleeCall {c : Callee} {xs : List (Temp × Exp)} {ts : List Temp}
    (hl : c.link.isPure = true)
    (h : (Stm.seq (xs.map fun a => .move (.temp a.1) a.2)).Sets ts) : (c.call xs).Sets ts := by
  have hpure : (c.link :: xs.map fun a => .temp a.1).all Exp.isPure = true := by
    simp [hl, Exp.isPure]
  have hstm : (Stm.seq (xs.map (fun a => .move (.temp a.1) a.2) ++
      c.oldFp.toList.map saveFp)).Sets ts := by
    cases c.oldFp with
    | none => simpa using h
    | some n => simpa using h.snoc (sets_saveFp n)
  simpa [Callee.call] using hstm.eseq (Exp.sets_call hpure)

lemma sets_toStm {r : Fragment} {ts : List Temp} (hc : r.toExp.isCall = false) (h : r.toExp.Sets ts) :
    r.toStm.Sets ts := by
  cases r with
  | value x => exact Stm.sets_exp hc h
  | effect s => exact Stm.sets_of_eseq rfl h

lemma sets_block_singleton {r : Fragment} {ts : List Temp} (h : r.toExp.Sets ts) :
    (block [] (some r)).toExp.Sets ts := by
  cases r with
  | value x => exact Stm.sets_nil.eseq h
  | effect s =>
    have hs := ((Stm.sets_of_eseq rfl h).cons Stm.sets_nil).effect
    rwa [List.append_nil] at hs

lemma sets_block_cons {s : Stm} {rest : List Stm} {r : Fragment} {ts us : List Temp} (hs : s.Sets ts)
    (h : (block rest (some r)).toExp.Sets us) : (block (s :: rest) (some r)).toExp.Sets (ts ++ us) := by
  cases r with
  | value x => exact Exp.Sets.cons hs h
  | effect s' => exact Exp.Sets.cons hs h

lemma sets_copyWords (dst src : Temp) (size : Int) : (Stm.seq (copyWords dst src size)).Sets [] := by
  unfold copyWords
  induction wordOffsets size with
  | nil => exact Stm.sets_nil
  | cons i is ih =>
    have hdst : (Exp.offset (.temp dst) i).Sets [] := Exp.sets_of_isPure (isPure_offset rfl i)
    have hsrc : (Exp.offset (.temp src) i).Sets [] := Exp.sets_of_isPure (isPure_offset rfl i)
    have h := (Stm.sets_move_mem hdst hsrc.mem).cons ih
    exact h

section Control

variable {c low high step a : Exp} {s s' : Stm} {p q e : Label} {ts us vs ws : List Temp}

lemma sets_ifThen (hc : c.Sets ts) (hs : s.Sets us) : (ifThen p e c s).Sets (ts ++ us) := by
  have h := (Stm.sets_cjump hc p e).cons ((Stm.sets_label p).cons (hs.cons
    ((Stm.sets_label e).cons Stm.sets_nil)))
  simpa [ifThen] using h

lemma sets_ifElse (hc : c.Sets ts) (hs : s.Sets us) (hs' : s'.Sets vs) :
    (ifElse p q e c s s').Sets (ts ++ (us ++ vs)) := by
  have h := (Stm.sets_cjump hc p q).cons ((Stm.sets_label p).cons (hs.cons ((Stm.sets_jump e).cons
    ((Stm.sets_label q).cons (hs'.cons ((Stm.sets_label e).cons Stm.sets_nil))))))
  simpa [ifElse] using h

lemma sets_whileLoop (hc : c.Sets ts) (hs : s.Sets us) : (whileLoop p q e c s).Sets (ts ++ us) := by
  have h := (Stm.sets_label p).cons ((Stm.sets_cjump hc q e).cons ((Stm.sets_label q).cons (hs.cons
    ((Stm.sets_jump p).cons ((Stm.sets_label e).cons Stm.sets_nil)))))
  simpa [whileLoop] using h

lemma sets_forLoop (ha : a.isPure = true) (hl : low.Sets ts) (hh : high.Sets us) (ht : step.Sets vs)
    (hs : s.Sets ws) : (forLoop p q e (.mem a) low high step s).Sets (ts ++ (us ++ (ws ++ vs))) := by
  have ha' := Exp.sets_of_isPure ha
  have h := (Stm.sets_move_mem ha' hl).cons ((Stm.sets_label p).cons
    ((Stm.sets_cjump (ha'.mem.binop hh .lt) q e).cons ((Stm.sets_label q).cons (hs.cons
    ((Stm.sets_move_mem ha' (ha'.mem.binop ht .add)).cons ((Stm.sets_jump p).cons
    ((Stm.sets_label e).cons Stm.sets_nil)))))))
  simpa [forLoop] using h

end Control

mutual

lemma expr_numbers (e : Expr) (he : Countable scope e.items) {level : Nat} {st st' : State}
    {r : Fragment} (h : (expr scope level e).run st = .ok (r, st')) :
    ∃ ts, r.toExp.Sets ts ∧ Numbers st st' ts := by
  cases e with
  | literal n v =>
    cases v with
    | integer w =>
      obtain ⟨rfl, rfl⟩ := expr_integer_ok.mp h
      exact ⟨[], Exp.sets_of_isPure rfl, .of_eq rfl rfl⟩
    | logical b =>
      obtain ⟨rfl, rfl⟩ := expr_logical_ok.mp h
      exact ⟨[], Exp.sets_of_isPure rfl, .of_eq rfl rfl⟩
    | string text =>
      obtain ⟨rfl, rfl⟩ := expr_string_ok.mp h
      refine ⟨[], Exp.sets_of_isPure rfl, ?_⟩
      exact (Numbers.of_eq rfl rfl).push (k := 0) (Ident.advance_zero _).symm rfl fun _ => rfl
  | name n x =>
    obtain ⟨_, access, type, -, -, -, -, rfl, rfl⟩ := expr_name_ok.mp h
    exact ⟨[], Exp.sets_of_isPure
      (isPure_variableValue type (isPure_addressOf level access) access), .of_eq rfl rfl⟩
  | unary n op x =>
    obtain ⟨q, hx, rfl⟩ := expr_unary_ok.mp h
    obtain ⟨ts, hs, hn⟩ :=
      expr_numbers x (he.of_part (by simp [Expr.items, Expr.mem_items])) hx
    refine ⟨ts, ?_, hn⟩
    cases op with
    | plus => exact hs
    | negate => exact (Exp.sets_of_isPure (x := .const 0) rfl).binop hs .sub
    | not => exact (Exp.sets_of_isPure (x := .const 1) rfl).binop hs .sub
  | binary n op x y =>
    have hx' := he.of_part (x := x) (by simp [Expr.items, Expr.mem_items])
    have hy' := he.of_part (x := y) (by simp [Expr.items, Expr.mem_items])
    cases op with
    | compute op =>
      obtain ⟨_, _, _, hx, hy, rfl⟩ := expr_compute_ok.mp h
      obtain ⟨ts, hs, hn⟩ := expr_numbers x hx' hx
      obtain ⟨us, hs', hn'⟩ := expr_numbers y hy' hy
      exact ⟨ts ++ us, hs.binop hs' op, hn.append hn'⟩
    | index => cases he.unindexed _ (Expr.mem_items _)
    | assign =>
      obtain ⟨type, -, h⟩ := expr_assign_ok.mp h
      split at h
      · obtain ⟨-, q, _, q', hx, hy, rfl⟩ := h
        obtain ⟨ts, hs, hn⟩ := expr_numbers x hx' hx
        obtain ⟨us, hs', hn'⟩ := expr_numbers y hy' hy
        have hcopy := (Stm.sets_move_temp (expr_not_isCall x hx) hs st.nextTemp).cons
          ((Stm.sets_move_temp (expr_not_isCall y hy) hs' st.nextTemp.next).cons
            (sets_copyWords st.nextTemp st.nextTemp.next type.size))
        refine ⟨_, hcopy.effect, ?_⟩
        refine (((Numbers.next st).append (.next _)).append (hn.append hn')).of_count fun t => ?_
        simp only [List.count_append, List.count_cons, List.count_nil]
        omega
      · obtain ⟨q, _, q', hx, ha, hy, rfl⟩ := h
        obtain ⟨ts, hs, hn⟩ := expr_numbers x hx' hx
        obtain ⟨us, hs', hn'⟩ := expr_numbers y hy' hy
        obtain ⟨a, hpure, hq⟩ := expr_mem_of_isAssignable hx'.unindexed hx ha
        rw [hq] at hs ⊢
        have hmove := Stm.sets_move_mem (Exp.sets_of_isPure hpure) hs'
        refine ⟨us, hmove.effect, (hn.append hn').of_count fun t => ?_⟩
        rw [List.count_append, hs.count_eq (Exp.sets_of_isPure hpure).mem, List.count_nil, Nat.zero_add]
  | call n f args =>
    obtain ⟨c, _, xs, hc, hx, rfl⟩ := expr_call_ok.mp h
    obtain rfl := callee_state hc
    obtain ⟨ts, hs, hn⟩ := arguments_numbers args (he.mono (by simp [Expr.items])) hx
    exact ⟨ts, sets_calleeCall (link_isPure hc) hs, hn⟩
  | block n es =>
    obtain ⟨_, _, hb, rfl⟩ := expr_block_ok.mp h
    exact body_numbers es (he.mono (by simp [Expr.items])) hb
  | ifThen n c p =>
    obtain ⟨_, _, _, hc, hp, rfl⟩ := expr_ifThen_ok.mp h
    obtain ⟨ts, hs, hn⟩ := expr_numbers c (he.of_part (by simp [Expr.items, Expr.mem_items])) hc
    obtain ⟨us, hs', hn'⟩ := expr_numbers p (he.of_part (by simp [Expr.items, Expr.mem_items])) hp
    have hp' := sets_toStm (expr_not_isCall p hp) hs'
    exact ⟨_, (sets_ifThen hs hp').effect, hn.append hn'.of_skip⟩
  | ifElse n c p q =>
    obtain ⟨_, _, _, _, _, hc, hp, hq, rfl⟩ := expr_ifElse_ok.mp h
    obtain ⟨ts, hs, hn⟩ := expr_numbers c (he.of_part (by simp [Expr.items, Expr.mem_items])) hc
    obtain ⟨us, hs', hn'⟩ := expr_numbers p (he.of_part (by simp [Expr.items, Expr.mem_items])) hp
    obtain ⟨vs, hs'', hn''⟩ := expr_numbers q (he.of_part (by simp [Expr.items, Expr.mem_items])) hq
    have hp' := sets_toStm (expr_not_isCall p hp) hs'
    have hq' := sets_toStm (expr_not_isCall q hq) hs''
    exact ⟨_, (sets_ifElse hs hp' hq').effect, hn.append (hn'.of_skip.append hn'')⟩
  | whileLoop n c b =>
    obtain ⟨_, _, _, hc, hb, rfl⟩ := expr_whileLoop_ok.mp h
    obtain ⟨ts, hs, hn⟩ := expr_numbers c (he.of_part (by simp [Expr.items, Expr.mem_items])) hc
    obtain ⟨us, hs', hn'⟩ := expr_numbers b (he.of_part (by simp [Expr.items, Expr.mem_items])) hb
    have hb' := sets_toStm (expr_not_isCall b hb) hs'
    exact ⟨_, (sets_whileLoop hs hb').effect, hn.of_skip.append hn'⟩
  | forLoop n c low high step b =>
    obtain ⟨_, _, _, _, _, _, _, _, _, hc, ha, hl, hh, ht, hb, rfl⟩ := expr_forLoop_ok.mp h
    have hc' := he.of_part (x := c) (by simp [Expr.items, Expr.mem_items])
    obtain ⟨ts, hs, hn⟩ := expr_numbers c hc' hc
    obtain ⟨us, hs₁, hn₁⟩ := expr_numbers low (he.of_part (by simp [Expr.items, Expr.mem_items])) hl
    obtain ⟨vs, hs₂, hn₂⟩ := expr_numbers high (he.of_part (by simp [Expr.items, Expr.mem_items])) hh
    obtain ⟨ws, hs₃, hn₃⟩ := expr_numbers step (he.of_part (by simp [Expr.items, Expr.mem_items])) ht
    obtain ⟨zs, hs₄, hn₄⟩ := expr_numbers b (he.of_part (by simp [Expr.items, Expr.mem_items])) hb
    obtain ⟨a, hpure, hq⟩ := expr_mem_of_isAssignable hc'.unindexed hc ha
    rw [hq] at hs ⊢
    have hb' := sets_toStm (expr_not_isCall b hb) hs₄
    refine ⟨_, (sets_forLoop hpure hs₁ hs₂ hs₃ hb').effect, ?_⟩
    refine ((((hn.of_skip.append hn₁).append hn₂).append hn₃).append hn₄).of_count fun t => ?_
    have hnone := hs.count_eq (Exp.sets_of_isPure hpure).mem t
    simp only [List.count_append, List.count_nil] at hnone ⊢
    omega
  | whereDefs n x m ds =>
    obtain ⟨_, hd, hx⟩ := expr_whereDefs_ok.mp h
    have hdefs := defs_numbers (he.mono (by simp [Expr.items])) hd
    obtain ⟨ts, hs, hn⟩ :=
      expr_numbers x (he.of_part (by simp [Expr.items, Expr.mem_items])) hx
    exact ⟨ts, hs, hdefs.append hn⟩

lemma arguments_numbers (es : List Expr) (he : Countable scope (Expr.itemsAll es)) {level : Nat}
    {st st' : State} {xs : List (Temp × Exp)}
    (h : (arguments scope level es).run st = .ok (xs, st')) :
    ∃ ts, (Stm.seq (xs.map fun a => .move (.temp a.1) a.2)).Sets ts ∧ Numbers st st' ts := by
  cases es with
  | nil =>
    obtain ⟨rfl, rfl⟩ := arguments_nil_ok.mp h
    exact ⟨[], Stm.sets_nil, .of_eq rfl rfl⟩
  | cons e es =>
    obtain ⟨q, st₁, _, hx, hes, rfl⟩ := arguments_cons_ok.mp h
    obtain ⟨ts, hs, hn⟩ := expr_numbers e (he.mono (List.subset_append_left ..)) hx
    obtain ⟨us, hs', hn'⟩ := arguments_numbers es (he.mono (List.subset_append_right ..)) hes
    refine ⟨_, (Stm.sets_move_temp (expr_not_isCall e hx) hs st₁.nextTemp).cons hs', ?_⟩
    refine ((hn.append (.next st₁)).append hn').of_count fun t => ?_
    simp only [List.count_append, List.count_cons, List.count_nil]
    omega

lemma body_numbers (es : List Expr) (he : Countable scope (Expr.itemsAll es)) {level : Nat}
    {st st' : State} {init : List Stm} {last : Option Fragment}
    (h : (body scope level es).run st = .ok ((init, last), st')) :
    ∃ ts, (block init last).toExp.Sets ts ∧ Numbers st st' ts := by
  match es with
  | [] =>
    obtain ⟨rfl, rfl, rfl⟩ := body_nil_ok.mp h
    exact ⟨[], Exp.sets_of_isPure rfl, .of_eq rfl rfl⟩
  | [e] =>
    obtain ⟨r, hr, rfl, rfl⟩ := body_singleton_ok.mp h
    obtain ⟨ts, hs, hn⟩ := expr_numbers e (he.mono (List.subset_append_left ..)) hr
    exact ⟨ts, sets_block_singleton hs, hn⟩
  | e :: e' :: es =>
    obtain ⟨r, _, rest, hr, hes, rfl⟩ := body_cons_ok.mp h
    obtain ⟨ts, hs, hn⟩ := expr_numbers e (he.mono (List.subset_append_left ..)) hr
    obtain ⟨us, hs', hn'⟩ := body_numbers (e' :: es) (he.mono (List.subset_append_right ..)) hes
    obtain ⟨q, rfl⟩ := body_last hes
    exact ⟨ts ++ us, sets_block_cons (sets_toStm (expr_not_isCall e hr) hs) hs', hn.append hn'⟩

end

lemma defn_numbers (d : Def) : ∀ outer, (∀ o ∈ d.occurrences outer, o.item.isIndex = false) →
    ∀ ⦃st st' : State⦄ ⦃u : Unit⦄, (defn scope d).run st = .ok (u, st') → Numbers st st' [] := by
  induction d using Def.nested with
  | h d ih =>
  intro outer hd st st' u h
  cases d with
  | var n x t =>
    obtain ⟨access, -, rfl⟩ := defn_var_ok.mp h
    cases access with
    | global size label =>
      exact (Numbers.of_eq rfl rfl).push (k := 0) (Ident.advance_zero _).symm rfl fun _ => rfl
    | stack size offset target => exact .of_eq rfl rfl
    | param size offset target => exact .of_eq rfl rfl
  | type n x t =>
    obtain rfl := defn_type_ok.mp h
    exact .of_eq rfl rfl
  | func n f ps t b =>
    obtain ⟨frame, r, st₁, -, hr, rfl⟩ := defn_func_ok.mp h
    have hb : ∀ o ∈ b.occurrences (n.id :: outer), o.item.isIndex = false := fun o ho =>
      hd o (List.mem_append_left _ ho)
    have hcount : Countable scope b.items := by
      refine ⟨fun i hi => ?_, fun d hm => ih d hm (n.id :: outer) fun o ho =>
        hb o (Expr.mem_occurrences hm ho)⟩
      cases i with
      | expr e => exact hb _ (Expr.mem_occurrences hi (List.mem_singleton_self _))
      | defn d => rfl
    obtain ⟨ts, hs, hn⟩ := expr_numbers b hcount hr
    have hplace : (Exp.name .framePointer).Sets [] := Exp.sets_of_isPure rfl
    have hreturn : (returning r.toExp).Sets ts := Stm.sets_move_mem hplace hs
    exact hn.push (Stm.flat_next _ _) rfl (hreturn st₁.nextTemp)

end Walk

end Lowering

namespace Source.Program.Compiles

variable {p : Program} {entry : String} {code : Code.Program} {layout : Layout} {st : State}

lemma nodup_settings (h : p.Compiles entry code layout st)
    (hi : ∀ o ∈ p.occurrences, o.item.isIndex = false) (hs : code.statements.length ≤ UInt32.size) :
    (settings code.statements).Nodup := by
  have hd : Countable (p.scope layout) (p.defs.definitions.map .defn) := by
    refine ⟨fun i hm => ?_, fun d hm => ?_⟩
    · obtain ⟨d, -, rfl⟩ := List.mem_map.mp hm
      rfl
    · obtain ⟨d', hd', he⟩ := List.mem_map.mp hm
      obtain rfl := Item.defn.inj he
      refine defn_numbers d' [] fun o ho => hi o ?_
      rw [Program.occurrences, Def.occurrencesAll_eq]
      exact List.mem_flatMap.mpr ⟨d', hd', ho⟩
  obtain ⟨k, -, hk⟩ := defs_numbers hd h.run
  have hperm : (settings code.statements).Perm (fresh (.ofNat 0) k) :=
    List.perm_iff_count.mpr fun t => by simpa [Program.statements, h.chunks] using hk t
  have hlength : k ≤ UInt32.size := by
    have hle : (settings code.statements).length ≤ code.statements.length :=
      List.length_filterMap_le _ _
    rw [hperm.length_eq, length_fresh] at hle
    exact Nat.le_trans hle hs
  exact hperm.nodup_iff.mpr (nodup_fresh _ hlength)

lemma eq_of_setting (h : p.Compiles entry code layout st)
    (hi : ∀ o ∈ p.occurrences, o.item.isIndex = false) (hs : code.statements.length ≤ UInt32.size)
    {frame : Frame} {body : Stm} (hm : .code frame body ∈ code.chunks) {t : Temp} {x y : Exp}
    (hx : .move (.temp t) x ∈ body.statements) (hy : .move (.temp t) y ∈ body.statements) : x = y := by
  have hsub : body.statements.Sublist code.statements :=
    List.sublist_flatten_of_mem (List.mem_map_of_mem (f := Chunk.statements) hm)
  have he := eq_of_nodup_filterMap (h.nodup_settings hi hs) (hsub.subset hx) (hsub.subset hy)
    (b := t) rfl rfl
  exact (Stm.move.inj he).2

end Source.Program.Compiles

end BlockLang
