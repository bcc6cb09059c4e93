import BlockLang.Proofs.Callees
import BlockLang.Proofs.Loading
import BlockLang.Proofs.StepCases
import BlockLang.Proofs.UniqueLabels
import BlockLang.Source.Sample
import Mathlib.Data.Fintype.EquivFin
import Mathlib.Order.WellFounded

/-! A program without loops and without recursion comes to an end. Its jumps only go forward, and a
function only calls functions that come before it in some order. -/

namespace BlockLang

open Source Code Lowering

namespace Code

def Forward : List Control → Prop
  | [] => True
  | c :: cs => (∀ l ∈ c.targets, .label l ∈ cs) ∧ Forward cs

lemma Forward.append {cs ds : List Control} (h : Forward cs) (h' : Forward ds) :
    Forward (cs ++ ds) := by
  induction cs with
  | nil => exact h'
  | cons c cs ih => exact ⟨fun l hl => List.mem_append_left _ (h.1 l hl), ih h.2⟩

lemma Forward.label {cs : List Control} (h : Forward cs) (l : Label) :
    Forward (.label l :: cs) :=
  ⟨List.forall_mem_nil _, h⟩

lemma forward_single (l : Label) : Forward [.label l] := ⟨List.forall_mem_nil _, trivial⟩

lemma Forward.at {code : List Stm} (h : Forward (controlsOf code)) {i : Nat} {s : Stm} {l : Label}
    (hi : code[i]? = some s) (hl : l ∈ s.targets) : ∃ j, i < j ∧ code[j]? = some (.label l) := by
  induction code generalizing i with
  | nil => simp at hi
  | cons s' code ih =>
    cases i with
    | zero =>
      obtain rfl : s' = s := by simpa using hi
      obtain ⟨c, hc, hl⟩ := Stm.control_of_mem_targets hl
      rw [controlsOf, List.filterMap_cons_some hc] at h
      obtain ⟨j, hj⟩ := List.mem_iff_getElem?.mp (mem_controlsOf_label.mp (h.1 l hl))
      exact ⟨j + 1, Nat.succ_pos j, by simpa using hj⟩
    | succ i =>
      have hrest : Forward (controlsOf code) := by
        cases hc : s'.control? with
        | none => rwa [controlsOf, List.filterMap_cons_none hc] at h
        | some c =>
          rw [controlsOf, List.filterMap_cons_some hc] at h
          exact h.2
      obtain ⟨j, hij, hj⟩ := ih hrest (by simpa using hi)
      exact ⟨j + 1, Nat.succ_lt_succ hij, by simpa using hj⟩

end Code

namespace Source

def Expr.isLoop : Expr → Bool
  | .whileLoop _ _ _ | .forLoop _ _ _ _ _ _ => true
  | _ => false

def Item.isLoop : Item → Bool
  | .expr e => e.isLoop
  | .defn _ => false

def Item.isDraw (tables : Tables) : Item → Bool
  | .expr (.call n x _) => x == Intrinsic.randInt.name && tables.bindings[n.id]?.isNone
  | _ => false

def Loopless (is : List Item) : Prop := ∀ i ∈ is, i.isLoop = false

lemma Loopless.mono {is js : List Item} (h : Loopless js) (hs : is ⊆ js) : Loopless is :=
  fun i hi => h i (hs hi)

lemma Loopless.of_part {e x : Expr} (h : Loopless e.items) (hx : .expr x ∈ e.items) :
    Loopless x.items :=
  h.mono (e.items_subset hx)

lemma Def.havePlainCounters_of_forall {ds : List Def} (h : ∀ d ∈ ds, d.hasPlainCounters = true) :
    Def.havePlainCounters ds = true := by
  induction ds with
  | nil => rfl
  | cons d ds ih =>
    rw [List.forall_mem_cons] at h
    simp [Def.havePlainCounters, h.1, ih h.2]

mutual

lemma Expr.hasPlainCounters_of_loopless (e : Expr) (he : Loopless e.items)
    (hd : ∀ d, .defn d ∈ e.items → d.hasPlainCounters = true) : e.hasPlainCounters = true := by
  have hpart : ∀ x : Expr, .expr x ∈ e.items →
      Loopless x.items ∧ ∀ d, .defn d ∈ x.items → d.hasPlainCounters = true := fun x hx =>
    ⟨he.of_part hx, fun d hm => hd d (e.items_subset hx hm)⟩
  cases e with
  | literal n v => rfl
  | name n x => rfl
  | unary n op x =>
    obtain ⟨hx, hx'⟩ := hpart x (by simp [Expr.items, Expr.mem_items])
    exact x.hasPlainCounters_of_loopless hx hx'
  | binary n op x y =>
    obtain ⟨hx, hx'⟩ := hpart x (by simp [Expr.items, Expr.mem_items])
    obtain ⟨hy, hy'⟩ := hpart y (by simp [Expr.items, Expr.mem_items])
    simp [Expr.hasPlainCounters, x.hasPlainCounters_of_loopless hx hx',
      y.hasPlainCounters_of_loopless hy hy']
  | call n f args =>
    exact Expr.havePlainCounters_of_loopless args (he.mono (by simp [Expr.items]))
      fun d hm => hd d (by simp [Expr.items, hm])
  | block n es =>
    exact Expr.havePlainCounters_of_loopless es (he.mono (by simp [Expr.items]))
      fun d hm => hd d (by simp [Expr.items, hm])
  | ifThen n c p =>
    obtain ⟨hc, hc'⟩ := hpart c (by simp [Expr.items, Expr.mem_items])
    obtain ⟨hp, hp'⟩ := hpart p (by simp [Expr.items, Expr.mem_items])
    simp [Expr.hasPlainCounters, c.hasPlainCounters_of_loopless hc hc',
      p.hasPlainCounters_of_loopless hp hp']
  | ifElse n c p q =>
    obtain ⟨hc, hc'⟩ := hpart c (by simp [Expr.items, Expr.mem_items])
    obtain ⟨hp, hp'⟩ := hpart p (by simp [Expr.items, Expr.mem_items])
    obtain ⟨hq, hq'⟩ := hpart q (by simp [Expr.items, Expr.mem_items])
    simp [Expr.hasPlainCounters, c.hasPlainCounters_of_loopless hc hc',
      p.hasPlainCounters_of_loopless hp hp', q.hasPlainCounters_of_loopless hq hq']
  | whileLoop n c b => cases he _ (Expr.mem_items _)
  | forLoop n c low high step b => cases he _ (Expr.mem_items _)
  | whereDefs n x m ds =>
    obtain ⟨hx, hx'⟩ := hpart x (by simp [Expr.items, Expr.mem_items])
    have hds : ∀ d ∈ ds, d.hasPlainCounters = true := fun d hm => hd d (by simp [Expr.items, hm])
    simp [Expr.hasPlainCounters, x.hasPlainCounters_of_loopless hx hx',
      Def.havePlainCounters_of_forall hds]

lemma Expr.havePlainCounters_of_loopless (es : List Expr) (he : Loopless (Expr.itemsAll es))
    (hd : ∀ d, .defn d ∈ Expr.itemsAll es → d.hasPlainCounters = true) :
    Expr.havePlainCounters es = true := by
  cases es with
  | nil => rfl
  | cons e es =>
    have hx := e.hasPlainCounters_of_loopless (he.mono (List.subset_append_left ..))
      fun d hm => hd d (List.mem_append_left _ hm)
    have hxs := Expr.havePlainCounters_of_loopless es (he.mono (List.subset_append_right ..))
      fun d hm => hd d (List.mem_append_right _ hm)
    simp [Expr.havePlainCounters, hx, hxs]

end

lemma Def.hasPlainCounters_of_loopless (d : Def) : ∀ outer,
    (∀ o ∈ d.occurrences outer, o.item.isLoop = false) → d.hasPlainCounters = true := by
  induction d using Def.nested with
  | h d ih =>
  intro outer h
  cases d with
  | var n x t => rfl
  | type n x t => rfl
  | func n x ps t b =>
    have hb : ∀ o ∈ b.occurrences (n.id :: outer), o.item.isLoop = false := fun o ho =>
      h o (List.mem_append_left _ ho)
    refine b.hasPlainCounters_of_loopless (fun i hi => ?_) fun d hd => ?_
    · cases i with
      | expr e => exact hb _ (Expr.mem_occurrences hi (List.mem_singleton_self _))
      | defn d => rfl
    · exact ih d hd (n.id :: outer) fun o ho => hb o (Expr.mem_occurrences hd ho)

end Source

namespace Lowering

section Control

variable {p q e : Label} {c : Exp} {s s' : Stm}

lemma forward_ifThen (hc : Forward c.controls) (hs : Forward s.controls) :
    Forward (ifThen p e c s).controls := by
  have h : (ifThen p e c s).controls =
      c.controls ++ .branch p e :: .label p :: (s.controls ++ [.label e]) := by
    simp [ifThen, Stm.controls, Stm.controlsAll]
  rw [h]
  refine hc.append ⟨fun l hl => ?_, (hs.append (forward_single e)).label p⟩
  rcases mem_targets_branch.mp hl with rfl | rfl
  · simp
  · simp

lemma forward_ifElse (hc : Forward c.controls) (hs : Forward s.controls)
    (hs' : Forward s'.controls) : Forward (ifElse p q e c s s').controls := by
  have h : (ifElse p q e c s s').controls = c.controls ++ .branch p q :: .label p ::
      (s.controls ++ .jump e :: .label q :: (s'.controls ++ [.label e])) := by
    simp [ifElse, Stm.controls, Stm.controlsAll]
  rw [h]
  have htail : Forward (.jump e :: .label q :: (s'.controls ++ [.label e])) := by
    refine ⟨fun l hl => ?_, (hs'.append (forward_single e)).label q⟩
    obtain rfl := List.mem_singleton.mp hl
    simp
  refine hc.append ⟨fun l hl => ?_, (hs.append htail).label p⟩
  rcases mem_targets_branch.mp hl with rfl | rfl
  · simp
  · simp

end Control

mutual

lemma expr_forward (scope : Scope) (e : Expr) (he : Loopless e.items) {level : Nat} {st st' : State}
    {r : Fragment} (h : (expr scope level e).run st = .ok (r, st')) : Forward r.toExp.controls := by
  cases e with
  | literal n v =>
    cases v with
    | integer w =>
      obtain ⟨rfl, -⟩ := expr_integer_ok.mp h
      trivial
    | logical b =>
      obtain ⟨rfl, -⟩ := expr_logical_ok.mp h
      trivial
    | string text =>
      obtain ⟨rfl, -⟩ := expr_string_ok.mp h
      trivial
  | name n x =>
    obtain ⟨_, _, _, -, -, -, -, rfl, -⟩ := expr_name_ok.mp h
    rw [Fragment.controls_toExp_value, controls_variableValue, controls_addressOf]
    trivial
  | unary n op x =>
    obtain ⟨_, hx, rfl⟩ := expr_unary_ok.mp h
    rw [Fragment.controls_toExp_value, controls_unary]
    exact expr_forward scope x (he.of_part (by simp [Expr.items, Expr.mem_items])) hx
  | binary n op x y =>
    have hx' := he.of_part (x := x) (by simp [Expr.items, Expr.mem_items])
    have hy' := he.of_part (x := y) (by simp [Expr.items, Expr.mem_items])
    cases op with
    | compute op =>
      obtain ⟨_, _, _, hx, hy, rfl⟩ := expr_compute_ok.mp h
      exact (expr_forward scope x hx' hx).append (expr_forward scope y hy' hy)
    | index =>
      obtain ⟨_, _, -, -, _, _, _, hx, hy, rfl⟩ := expr_index_ok.mp h
      rw [Fragment.controls_toExp_value, controls_element]
      exact (expr_forward scope x hx' hx).append (expr_forward scope y hy' hy)
    | assign =>
      obtain ⟨type, -, h⟩ := expr_assign_ok.mp h
      split at h
      · obtain ⟨-, _, _, _, hx, hy, rfl⟩ := h
        rw [Fragment.controls_toExp_effect]
        simp only [Stm.controls, Stm.controlsAll, Exp.controls, controls_copyWords, List.append_nil,
          List.nil_append]
        exact (expr_forward scope x hx' hx).append (expr_forward scope y hy' hy)
      · obtain ⟨_, _, _, hx, -, hy, rfl⟩ := h
        rw [Fragment.controls_toExp_effect]
        exact (expr_forward scope x hx' hx).append (expr_forward scope y hy' hy)
  | call n f args =>
    obtain ⟨c, _, xs, hc, hx, rfl⟩ := expr_call_ok.mp h
    rw [Fragment.controls_toExp_value, controls_call c xs (controls_link hc).1]
    exact arguments_forward scope args (he.mono (by simp [Expr.items])) hx
  | block n es =>
    obtain ⟨_, _, hb, rfl⟩ := expr_block_ok.mp h
    exact body_forward scope es (he.mono (by simp [Expr.items])) hb
  | ifThen n c p =>
    obtain ⟨_, _, _, hc, hp, rfl⟩ := expr_ifThen_ok.mp h
    have hc' := expr_forward scope c (he.of_part (by simp [Expr.items, Expr.mem_items])) hc
    have hp' := expr_forward scope p (he.of_part (by simp [Expr.items, Expr.mem_items])) hp
    rw [← Fragment.controls_toStm] at hp'
    rw [Fragment.controls_toExp_effect]
    exact forward_ifThen hc' hp'
  | ifElse n c p q =>
    obtain ⟨_, _, _, _, _, hc, hp, hq, rfl⟩ := expr_ifElse_ok.mp h
    have hc' := expr_forward scope c (he.of_part (by simp [Expr.items, Expr.mem_items])) hc
    have hp' := expr_forward scope p (he.of_part (by simp [Expr.items, Expr.mem_items])) hp
    have hq' := expr_forward scope q (he.of_part (by simp [Expr.items, Expr.mem_items])) hq
    rw [← Fragment.controls_toStm] at hp' hq'
    rw [Fragment.controls_toExp_effect]
    exact forward_ifElse hc' hp' hq'
  | whileLoop n c b => cases he _ (Expr.mem_items _)
  | forLoop n c low high step b => cases he _ (Expr.mem_items _)
  | whereDefs n x m ds =>
    obtain ⟨_, -, hx⟩ := expr_whereDefs_ok.mp h
    exact expr_forward scope x (he.of_part (by simp [Expr.items, Expr.mem_items])) hx

lemma arguments_forward (scope : Scope) (es : List Expr) (he : Loopless (Expr.itemsAll es))
    {level : Nat} {st st' : State} {xs : List (Temp × Exp)}
    (h : (arguments scope level es).run st = .ok (xs, st')) :
    Forward (xs.flatMap fun x => x.2.controls) := by
  cases es with
  | nil =>
    obtain ⟨rfl, -⟩ := arguments_nil_ok.mp h
    trivial
  | cons e es =>
    obtain ⟨_, _, _, hx, hes, rfl⟩ := arguments_cons_ok.mp h
    rw [List.flatMap_cons]
    exact (expr_forward scope e (he.mono (List.subset_append_left ..)) hx).append
      (arguments_forward scope es (he.mono (List.subset_append_right ..)) hes)

lemma body_forward (scope : Scope) (es : List Expr) (he : Loopless (Expr.itemsAll es))
    {level : Nat} {st st' : State} {init : List Stm} {last : Option Fragment}
    (h : (body scope level es).run st = .ok ((init, last), st')) :
    Forward (block init last).toExp.controls := by
  match es with
  | [] =>
    obtain ⟨rfl, rfl, -⟩ := body_nil_ok.mp h
    trivial
  | [e] =>
    obtain ⟨r, hr, rfl, rfl⟩ := body_singleton_ok.mp h
    rw [controls_block_singleton]
    exact expr_forward scope e (he.mono (List.subset_append_left ..)) hr
  | e :: e' :: es =>
    obtain ⟨r, _, rest, hr, hes, rfl⟩ := body_cons_ok.mp h
    obtain ⟨q, rfl⟩ := body_last hes
    rw [controls_block_cons, Fragment.controls_toStm]
    exact (expr_forward scope e (he.mono (List.subset_append_left ..)) hr).append
      (body_forward scope (e' :: es) (he.mono (List.subset_append_right ..)) hes)

end

end Lowering

def Outcome.isFinal : Outcome → Bool
  | .value _ | .fault _ => true
  | .unfinished _ => false

namespace Thread

variable {image : Image} {t t' : Thread} {m m' : Machine}

def Halts (image : Image) (t : Thread) (m : Machine) : Prop :=
  ∃ fuel, (t.runFor image fuel m).1.isFinal = true

lemma halts_of_advance
    (h : ∀ t' m', t.advance image m = .ok (.running t') m' → t'.Halts image m') :
    t.Halts image m := by
  cases hs : t.advance image m with
  | error e m' =>
    refine ⟨1, ?_⟩
    rw [runFor_of_error hs]
    rfl
  | ok p m' =>
    cases p with
    | finished w =>
      refine ⟨1, ?_⟩
      rw [runFor_of_finished hs]
      rfl
    | running t' =>
      obtain ⟨fuel, hf⟩ := h t' m' hs
      refine ⟨fuel + 1, ?_⟩
      rw [runFor_of_running hs]
      exact hf

def Resumes (image : Image) (d : Destination) : List Activation → Prop
  | [] => True
  | a :: as => ∀ w b m m', a.write w d m = .ok b m' → Halts image ⟨b, as⟩ m'

end Thread

namespace Routine

variable {image : Image} {r : Routine}

def Completes (image : Image) (r : Routine) : Prop :=
  ∀ (a : Activation) (callers : List Activation) (m : Machine), a.routine = r →
    Thread.Resumes image a.destination callers → Thread.Halts image ⟨a, callers⟩ m

/-- Jumps go forward, calls go to functions that come to an end, and no random numbers are drawn. -/
structure Descends (image : Image) (r : Routine) : Prop where
  forward : ∀ (i j : Nat) (s : Stm) (l : Label), r.code[i]? = some s → l ∈ s.targets →
    r.targets[l]? = some j → i < j
  calls : ∀ (f : Label) (r' : Routine), .callee f ∈ Stm.mentionsAll r.code.toList →
    image.routines[f]? = some r' → r'.Completes image
  draws : ∀ f : Label, .callee f ∈ Stm.mentionsAll r.code.toList →
    Intrinsic.ofLabel? f ≠ some .randInt

lemma mentions_of_invokes {a : Activation} {m : Machine} {f : Label} {args : List Exp}
    {d : Destination} (h : a.Invokes m f args d) :
    .callee f ∈ Stm.mentionsAll a.routine.code.toList := by
  rcases h with ⟨hs, -⟩ | ⟨dst, hs, -⟩
  · refine Stm.mem_mentionsAll.mpr ⟨_, Array.mem_toList_iff.mpr (Array.mem_of_getElem? hs), ?_⟩
    simp [Stm.mentions, Exp.mentions]
  · refine Stm.mem_mentionsAll.mpr ⟨_, Array.mem_toList_iff.mpr (Array.mem_of_getElem? hs), ?_⟩
    simp [Stm.mentions, Exp.mentions]

lemma Descends.halts (h : r.Descends image) {a : Activation} {callers : List Activation} {m : Machine}
    (ha : a.routine = r) (hr : Thread.Resumes image a.destination callers)
    (hnext : a.pc < r.code.size → ∀ (b : Activation) (m : Machine), b.routine = r → a.pc < b.pc →
      b.destination = a.destination → Thread.Halts image ⟨b, callers⟩ m) :
    Thread.Halts image ⟨a, callers⟩ m := by
  subst ha
  have hin : ∀ {s : Stm}, a.routine.code[a.pc]? = some s → a.pc < a.routine.code.size := fun hs =>
    (Array.getElem?_eq_some_iff.mp hs).1
  have hinvokes : ∀ {m : Machine} {f : Label} {args : List Exp} {d : Destination},
      a.Invokes m f args d → a.pc < a.routine.code.size := by
    rintro m f args d (⟨hs, -⟩ | ⟨dst, hs, -⟩)
    · exact hin hs
    · exact hin hs
  have hwrite : ∀ {w : Word} {d : Destination} {b : Activation} {m m' : Machine},
      a.pc < a.routine.code.size → a.advance.write w d m = .ok b m' →
        Thread.Halts image ⟨b, callers⟩ m' := by
    intro w d b m m' hpc hw
    obtain ⟨hroutine, hb⟩ := Activation.write_keeps hw
    have hd : b.destination = a.advance.destination := Activation.write_destination hw
    refine hnext hpc b m' hroutine ?_ hd
    rw [hb]
    exact Nat.lt_succ_self a.pc
  have hadvance : ∀ {m : Machine}, a.pc < a.routine.code.size →
      Thread.Halts image ⟨a.advance, callers⟩ m := fun hpc =>
    hnext hpc a.advance _ rfl (Nat.lt_succ_self a.pc) rfl
  refine Thread.halts_of_advance fun t' m' ht => ?_
  cases Thread.moves_of_advance ht with
  | leave _ _ hc hw =>
    obtain rfl : callers = _ := hc
    exact hr _ _ _ _ hw
  | enter hs he =>
    cases hs with
    | call hi _ hr' =>
      refine h.calls _ _ (mentions_of_invokes hi) hr' _ _ m' rfl ?_
      exact fun w b m m' hw => hwrite (hinvokes hi) hw
  | step hs =>
    cases hs with
    | move hs _ _ _ hw => exact hwrite (hin hs) hw
    | exp hs _ => exact hadvance (hin hs)
    | label hs => exact hadvance (hin hs)
    | goto hs hl hg =>
      obtain ⟨pc, htarget, rfl⟩ := Activation.goto_ok.mp hg
      exact hnext (hin hs) _ _ rfl (h.forward a.pc pc _ _ hs hl htarget) rfl
    | intrinsic hi _ _ _ hw => exact hwrite (hinvokes hi) hw
    | redraw hi hl hx =>
      have hrand := Intrinsic.eq_randInt_of_exec_none hx
      subst hrand
      exact (h.draws _ (mentions_of_invokes hi) hl).elim

lemma Descends.completes (h : r.Descends image) : r.Completes image := by
  -- the statements that are left become fewer
  have hleft : ∀ (k : Nat) (a : Activation) (callers : List Activation) (m : Machine),
      a.routine = r → r.code.size - a.pc = k → Thread.Resumes image a.destination callers →
        Thread.Halts image ⟨a, callers⟩ m := by
    intro k
    induction k using Nat.strong_induction_on with
    | h k ih =>
      intro a callers m ha hk hr
      refine h.halts ha hr fun hpc b m hb hlt hd => ?_
      refine ih (r.code.size - b.pc) ?_ b callers m hb rfl (hd ▸ hr)
      omega
  intro a callers m ha hr
  exact hleft _ a callers m ha rfl hr

end Routine

lemma Image.run_isFinal {image : Image} (h : ∀ r, image.routines[image.entry]? = some r →
    r.Completes image) (m : Machine) : ∃ fuel, (image.run fuel m).1.isFinal = true := by
  cases hs : image.start m with
  | error e m' =>
    refine ⟨0, ?_⟩
    rw [run_of_start_error hs]
    rfl
  | ok t m' =>
    obtain ⟨r, _, hr, -, -, -, rfl⟩ := start_cases hs
    obtain ⟨fuel, hf⟩ := h r hr { routine := r, destination := .discard } [] m' rfl trivial
    refine ⟨fuel, ?_⟩
    rw [run_of_start hs]
    exact hf

instance (role : Role) : Finite (Ident role) :=
  .of_injective (fun i => i.val.toFin) fun ⟨_⟩ ⟨_⟩ h => congrArg Ident.mk (UInt32.toFin_inj.mp h)

namespace Source.Program

variable {p : Program} {entry : String} {code : Code.Program}

lemma wellFounded_calls (h : ∀ i, ¬Relation.TransGen p.Calls i i) : WellFounded (flip p.Calls) := by
  have htrans : IsTrans NodeId (Relation.TransGen (flip p.Calls)) :=
    ⟨fun _ _ _ => Relation.TransGen.trans⟩
  have hirrefl : Std.Irrefl (Relation.TransGen (flip p.Calls)) :=
    ⟨fun i hi => h i (Relation.transGen_swap.mp hi)⟩
  exact Subrelation.wf Relation.TransGen.single
    (Finite.wellFounded_of_trans_of_irrefl (Relation.TransGen (flip p.Calls)))

lemma acyclic_of_rank (rank : NodeId → Nat) (h : ∀ e ∈ p.callPairs, rank e.2 < rank e.1)
    (i : NodeId) : ¬Relation.TransGen p.Calls i i := by
  have hlt : ∀ {i j : NodeId}, Relation.TransGen p.Calls i j → rank j < rank i := by
    intro i j hij
    induction hij with
    | single hc => exact h _ hc.mem_callPairs
    | tail _ hc ih => exact (h _ hc.mem_callPairs).trans ih
  exact fun hi => (hlt hi).false

lemma havePlainCounters_of_loopless (h : ∀ o ∈ p.occurrences, o.item.isLoop = false) :
    Def.havePlainCounters p.defs.definitions = true := by
  refine Def.havePlainCounters_of_forall fun d hd => d.hasPlainCounters_of_loopless [] fun o ho => ?_
  refine h o ?_
  rw [Program.occurrences, Def.occurrencesAll_eq]
  exact List.mem_flatMap.mpr ⟨d, hd, ho⟩

lemma callee_origin {layout : Layout} {outer : List NodeId} {n : Node}
    {x : String} {ps : List Param} {t : TypeExpr} {b : Expr} {frame : Frame} {fragment : Fragment}
    {st₁ st₂ : State} (ho : ⟨outer, .defn (.func n x ps t b)⟩ ∈ p.occurrences)
    (hr : (expr (p.scope layout) frame.level b).run st₁ = .ok (fragment, st₂)) {next : Temp}
    {l : Label} (hm : .callee l ∈ Stm.mentionsAll ((returning fragment.toExp).flat next).code) :
    (∃ j f, p.Calls n.id j ∧ layout.frames[j]? = some f ∧ f.label = l) ∨
      ∃ i : Intrinsic, i.label = l ∧ ∃ outer n args,
        (⟨outer, .expr (.call n i.name args)⟩ : Occurrence) ∈ p.occurrences ∧
          p.tables.bindings[n.id]? = none := by
  have hmention : .callee l ∈ fragment.toExp.mentions := by
    have hsub := Stm.within_flat (returning fragment.toExp) next (List.Subset.refl _) hm
    simpa [returning, Stm.mentions, Exp.mentions] using hsub
  obtain ⟨n', y, args, c, st₃, st₄, hcall, hc, rfl⟩ := expr_callees b hr hmention
  have ho' : (⟨n.id :: outer, .expr (.call n' y args)⟩ : Occurrence) ∈ p.occurrences :=
    Program.mem_occurrences_body ho (Expr.mem_occurrences hcall (List.mem_singleton_self _))
  cases hb : p.tables.bindings[n'.id]? with
  | some j =>
    obtain ⟨f, hf, -, rfl, -⟩ := (callee_bound_ok hb).mp hc
    exact .inl ⟨j, f, ⟨outer, n', y, args, ho', hb⟩, hf, rfl⟩
  | none =>
    obtain ⟨i, hi, rfl, -⟩ := (callee_free_ok hb).mp hc
    have hy : i.name = y := by simpa using List.find?_some hi
    subst hy
    exact .inr ⟨i, rfl, _, n', args, ho', hb⟩

namespace Compiles

variable {layout : Layout} {st : State} {setup : Setup} {image : Image} {m : Machine}

lemma completes (h : p.Compiles entry code layout st) (hids : p.ids.Nodup)
    (hloops : ∀ o ∈ p.occurrences, o.item.isLoop = false) (hdraws : ∀ o ∈ p.occurrences, o.item.isDraw p.tables = false)
    (hnames : p.NamedApart) (hcalls : ∀ i, ¬Relation.TransGen p.Calls i i)
    (hl : Image.load code setup = .ok (image, m)) (i : NodeId) :
    ∀ (f : Frame) (r : Routine), layout.frames[i]? = some f → image.routines[f.label]? = some r →
      r.Completes image := by
  induction i using (wellFounded_calls hcalls).induction with
  | h i ih =>
  intro f r hf hr
  obtain ⟨outer, n, x, ps, t, b, fragment, st₁, st₂, ho, hf', hlabel, hrun, hm, hcode, htargets⟩ :=
    h.routine_origin hl hr
  obtain rfl := Layout.label_inj h.layout_eq hids hnames.distinct hf hf' hlabel.symm
  have hloopless : Loopless b.items := fun item hitem => by
    cases item with
    | expr e =>
      exact hloops _ (Program.mem_occurrences_body ho
        (Expr.mem_occurrences hitem (List.mem_singleton_self _)))
    | defn d => rfl
  have hforward : Forward (controlsOf r.code.toList) := by
    rw [hcode, Stm.controlsOf_flat]
    exact expr_forward _ b hloopless hrun
  have hresolved : r.Resolved := by
    have hr := Routine.resolved_of_nodup (f := r.frame)
      (h.nodup_labels (havePlainCounters_of_loopless hloops) hm)
    simpa only [Stm.statements, ← htargets, Array.toArray_toList] using hr
  refine Routine.Descends.completes ⟨fun a j s l hs htarget hj => ?_, fun l r' hl' hr' => ?_,
    fun l hl' => ?_⟩
  · obtain ⟨k, hak, hk⟩ := hforward.at (i := a) (by simpa using hs) htarget
    have := hresolved k l (by simpa using hk)
    obtain rfl := Option.some.inj (hj.symm.trans this)
    exact hak
  · rw [hcode] at hl'
    rcases callee_origin ho hrun hl' with ⟨j, g, hij, hg, rfl⟩ | ⟨intrinsic, rfl, -⟩
    · exact ih j hij g r' hg hr'
    · obtain ⟨_, n', _, _, _, _, _, _, _, -, hg, hlabel', -⟩ := h.routine_origin hl hr'
      exact (Layout.label_ne_intrinsic h.layout_eq hids hnames hg intrinsic hlabel').elim
  · rw [hcode] at hl'
    rcases callee_origin ho hrun hl' with ⟨j, g, -, hg, rfl⟩ | ⟨intrinsic, rfl, outer, n, args, hc, hb⟩
    · intro hrand
      exact Layout.label_ne_intrinsic h.layout_eq hids hnames hg .randInt
        (Intrinsic.eq_label_of_ofLabel? hrand)
    · intro hrand
      rw [Intrinsic.ofLabel?_label, Option.some.injEq] at hrand
      subst hrand
      have hdraw := hdraws _ hc
      simp [Item.isDraw, hb] at hdraw

end Compiles

end Source.Program

/-- A program without loops, without recursion and without random numbers comes to an end, whatever
the machine that it runs on. -/
theorem loop_free_programs_halt {p : Source.Program} {entry : String} {code : Code.Program}
    (h : p.compile entry = .ok code) (hids : p.ids.Nodup) (hnames : p.NamedApart)
    (hloops : ∀ o ∈ p.occurrences, o.item.isLoop = false) (hdraws : ∀ o ∈ p.occurrences, o.item.isDraw p.tables = false)
    (hcalls : ∀ i, ¬Relation.TransGen p.Calls i i) {setup : Setup} {image : Image} {m₀ : Machine}
    (hl : Image.load code setup = .ok (image, m₀)) (m : Machine) :
    ∃ fuel, (image.run fuel m).1.isFinal = true := by
  obtain ⟨layout, st, hc⟩ := Program.compile_ok.mp h
  refine Image.run_isFinal (fun r hr => ?_) m
  obtain ⟨_, n, _, _, _, _, _, _, _, -, hf, hlabel, -⟩ := hc.routine_origin hl hr
  rw [← hlabel] at hr
  exact hc.completes hids hloops hdraws hnames hcalls hl n.id r.frame r hf hr

theorem loop_free_programs_halt_counter :
    ∃ p code image m, Builder.run (Sample.counterProgram 5) = .ok p ∧ p.compile "main" = .ok code ∧
      Image.load code ⟨1024, .ofSeed 0, none⟩ = .ok (image, m) ∧
      ∃ fuel, (image.run fuel m).1.isFinal = true := by
  -- each function is listed after those that it calls
  obtain ⟨p, hb, h⟩ : ∃ p, Builder.run (Sample.counterProgram 5) = .ok p ∧
      (decide p.ids.Nodup && decide p.NamedApart &&
        decide (∀ o ∈ p.occurrences, o.item.isLoop = false) &&
        decide (∀ o ∈ p.occurrences, o.item.isDraw p.tables = false) &&
        decide (∀ e ∈ p.callPairs, (functionIds p.occurrences).idxOf e.2 <
          (functionIds p.occurrences).idxOf e.1) &&
        (p.compile "main").toOption.any fun code =>
          (Image.load code ⟨1024, .ofSeed 0, none⟩).toOption.any fun _ => true) = true :=
    exists_ok_of_any (by decide +kernel)
  simp only [Bool.and_eq_true, decide_eq_true_eq] at h
  obtain ⟨⟨⟨⟨⟨hids, hnames⟩, hloops⟩, hdraws⟩, hcalls⟩, h⟩ := h
  obtain ⟨code, hc, h⟩ := exists_ok_of_any h
  obtain ⟨⟨image, m⟩, hl, -⟩ := exists_ok_of_any h
  exact ⟨p, code, image, m, hb, hc, hl, loop_free_programs_halt hc hids hnames hloops hdraws
    (Program.acyclic_of_rank (functionIds p.occurrences).idxOf hcalls) hl m⟩

end BlockLang
