import BlockLang.Lowering
import Mathlib.Tactic.Common

namespace BlockLang

lemma run_bind_ok {σ ε α β : Type} {x : StateT σ (Except ε) α} {f : α → StateT σ (Except ε) β}
    {s : σ} {r : β × σ} :
    (x >>= f).run s = .ok r ↔ ∃ a s', x.run s = .ok (a, s') ∧ (f a).run s' = .ok r := by
  rw [StateT.run_bind]
  cases h : x.run s with
  | ok p =>
    obtain ⟨a, s'⟩ := p
    simp [bind, Except.bind]
  | error e => simp [bind, Except.bind]

lemma run_pure_ok {σ ε α : Type} {a b : α} {s s' : σ} :
    (pure a : StateT σ (Except ε) α).run s = .ok (b, s') ↔ a = b ∧ s = s' := by
  rw [StateT.run_pure]
  simp [pure, Except.pure]

open Source Code

namespace Layout

lemma typeOf_ok {types : NodeTable Ty} {n : Node} {type : Ty} {l l' : Layout} :
    (typeOf types n).run l = .ok (type, l') ↔ types[n.id]? = some type ∧ l' = l := by
  unfold typeOf
  cases types[n.id]? with
  | some t =>
    rw [run_pure_ok]
    simp [eq_comm]
  | none => simp [throw, throwThe, MonadExceptOf.throw, StateT.run, StateT.lift, bind, Except.bind]

lemma setAccess_ok {id : NodeId} {a : Access} {u : Unit} {l l' : Layout} :
    (setAccess id a).run l = .ok (u, l') ↔ l' = { l with accesses := l.accesses.insert id a } := by
  simp [setAccess, StateT.run, modify, modifyGet, MonadStateOf.modifyGet, StateT.modifyGet, pure,
    Except.pure, eq_comm]

lemma setFrame_ok {id : NodeId} {f : Frame} {u : Unit} {l l' : Layout} :
    (setFrame id f).run l = .ok (u, l') ↔ l' = { l with frames := l.frames.insert id f } := by
  simp [setFrame, StateT.run, modify, modifyGet, MonadStateOf.modifyGet, StateT.modifyGet, pure,
    Except.pure, eq_comm]

lemma freshLabel_ok {label : Label} {l l' : Layout} :
    freshLabel.run l = .ok (label, l') ↔
      label = l.labels.fresh.1 ∧ l' = { l with labels := l.labels.fresh.2 } := by
  simp [freshLabel, StateT.run, modifyGet, MonadStateOf.modifyGet, StateT.modifyGet, pure,
    Except.pure, eq_comm]

end Layout

namespace Lowering

lemma fail_ok {α : Type} {span : Span} {cause : Cause} {st : State} {r : α × State} :
    (fail span cause : Lower α).run st = .ok r ↔ False := by
  simp [fail, throw, throwThe, MonadExceptOf.throw, StateT.run, StateT.lift, bind, Except.bind]

lemma require_ok {α : Type} {span : Span} {cause : Cause} {o : Option α} {a : α}
    {st st' : State} : (require span cause o).run st = .ok (a, st') ↔ o = some a ∧ st' = st := by
  cases o with
  | none => simp [require, fail_ok]
  | some b =>
    simp only [require, run_pure_ok, Option.some.injEq]
    tauto

lemma freshLabel_ok {label : Label} {st st' : State} :
    freshLabel.run st = .ok (label, st') ↔
      label = .anonymous st.labels.used ∧ st' = { st with labels := ⟨st.labels.used + 1⟩ } := by
  simp [freshLabel, StateT.run, modifyGet, MonadStateOf.modifyGet, StateT.modifyGet, pure,
    Except.pure, eq_comm, LabelSupply.fresh]

lemma freshTemp_ok {t : Temp} {st st' : State} :
    freshTemp.run st = .ok (t, st') ↔
      t = st.nextTemp ∧ st' = { st with nextTemp := st.nextTemp.next } := by
  simp [freshTemp, StateT.run, modifyGet, MonadStateOf.modifyGet, StateT.modifyGet, pure,
    Except.pure, eq_comm]

lemma emit_ok {c : Chunk} {u : Unit} {st st' : State} :
    (emit c).run st = .ok (u, st') ↔ st' = { st with chunks := st.chunks.push c } := by
  simp [emit, StateT.run, modify, modifyGet, MonadStateOf.modifyGet, StateT.modifyGet, pure,
    Except.pure, eq_comm]

lemma linearize_ok {s code : Stm} {st st' : State} :
    (linearize s).run st = .ok (code, st') ↔
      code = (s.linearize st.nextTemp).1 ∧ st' = { st with nextTemp := (s.linearize st.nextTemp).2 } := by
  simp [linearize, StateT.run, modifyGet, MonadStateOf.modifyGet, StateT.modifyGet, pure,
    Except.pure, eq_comm]

mutual

lemma expr_integer_ok {scope : Scope} {level : Nat} {st st' : State} {out : Fragment} {n : Node}
    {w : Word} :
    (expr scope level (.literal n (.integer w))).run st = .ok (out, st') ↔
      out = .value (.const w) ∧ st' = st := by
  simp only [expr, literal, pure_bind, run_pure_ok]
  tauto

lemma expr_logical_ok {scope : Scope} {level : Nat} {st st' : State} {out : Fragment} {n : Node}
    {b : Bool} :
    (expr scope level (.literal n (.logical b))).run st = .ok (out, st') ↔
      out = .value (.const (.ofBool b)) ∧ st' = st := by
  simp only [expr, literal, pure_bind, run_pure_ok]
  tauto

lemma arguments_nil_ok {scope : Scope} {level : Nat} {st st' : State}
    {xs : List (Temp × Exp)} :
    (arguments scope level []).run st = .ok (xs, st') ↔ xs = [] ∧ st' = st := by
  simp only [arguments, run_pure_ok]
  tauto

lemma body_nil_ok {scope : Scope} {level : Nat} {st st' : State} {init : List Stm}
    {last : Option Fragment} :
    (body scope level []).run st = .ok ((init, last), st') ↔
      init = [] ∧ last = none ∧ st' = st := by
  simp only [body, run_pure_ok, Prod.mk.injEq]
  tauto

lemma defs_nil_ok {scope : Scope} {st st' : State} {u : Unit} :
    (defs scope []).run st = .ok (u, st') ↔ st' = st := by
  simp only [defs, run_pure_ok]
  tauto

lemma defn_type_ok {scope : Scope} {st st' : State} {n : Node} {x : String} {t : TypeExpr}
    {u : Unit} :
    (defn scope (.type n x t)).run st = .ok (u, st') ↔ st' = st := by
  simp only [defn, run_pure_ok]
  tauto

end

end Lowering

end BlockLang
