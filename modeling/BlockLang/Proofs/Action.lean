import BlockLang.Machine.Fault
import BlockLang.Word
import Mathlib.Tactic.Common

/-! Actions on a state. An action is done, or faults, or has not come to its end when a bound on the
rounds of its loops is used up. -/

namespace BlockLang

inductive Ending (σ α : Type) where
  | done (value : α) (state : σ)
  | fault (e : Fault) (state : σ)
  | unfinished

def Action (σ α : Type) := σ → Ending σ α

namespace Action

variable {σ α β : Type}

instance : Monad (Action σ) where
  pure a := fun s => .done a s
  bind x f := fun s =>
    match x s with
    | .done a s => f a s
    | .fault e s => .fault e s
    | .unfinished => .unfinished

instance : LawfulMonad (Action σ) :=
  LawfulMonad.mk' _
    (fun x => by
      funext s
      change (match x s with | .done a s => _ | .fault e s => _ | .unfinished => _) = _
      cases x s <;> rfl)
    (fun _ _ => rfl)
    (fun x f g => by
      funext s
      simp only [bind]
      cases x s <;> rfl)

def fail (e : Fault) : Action σ α := fun s => .fault e s

def compute (op : Op) (x y : Word) : Action σ Word :=
  match op.apply x y with
  | some w => pure w
  | none => fail .divisionByZero

lemma bind_done {x : Action σ α} {f : α → Action σ β} {s s' : σ} {a : α} (h : x s = .done a s') :
    (x >>= f) s = f a s' := by
  simp [bind, h]

lemma bind_fault {x : Action σ α} {f : α → Action σ β} {s s' : σ} {e : Fault}
    (h : x s = .fault e s') : (x >>= f) s = .fault e s' := by
  simp [bind, h]

lemma bind_unfinished {x : Action σ α} {f : α → Action σ β} {s : σ} (h : x s = .unfinished) :
    (x >>= f) s = .unfinished := by
  simp [bind, h]

lemma bind_eq_done {x : Action σ α} {f : α → Action σ β} {s s' : σ} {b : β} :
    (x >>= f) s = .done b s' ↔ ∃ a s₁, x s = .done a s₁ ∧ f a s₁ = .done b s' := by
  cases h : x s with
  | done a s₁ => simp [bind_done h]
  | fault e s₁ => simp [bind_fault h]
  | unfinished => simp [bind_unfinished h]

def test (w : Word) : Action σ Bool :=
  if w = 1 then pure true
  else if w = 0 then pure false
  else fail (.invalidCondition w)

def stuck : Action σ α := fun _ => .unfinished

def loop (test : Action σ Bool) (body : Action σ Unit) : (rounds : Nat) → Action σ Unit
  | 0 => fun _ => .unfinished
  | rounds + 1 => do
    if ← test then
      body
      loop test body rounds

def round (test : Action σ Bool) (body : Action σ Unit) : Action σ Bool := do
  if ← test then
    body
    return true
  else return false

lemma loop_succ (test : Action σ Bool) (body : Action σ Unit) (rounds : Nat) :
    loop test body (rounds + 1) = (do if ← round test body then loop test body rounds) := by
  simp only [loop, round, bind_assoc]
  refine bind_congr fun t => ?_
  cases t <;> simp

end Action

end BlockLang
