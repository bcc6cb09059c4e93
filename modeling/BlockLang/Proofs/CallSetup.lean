import BlockLang.Proofs.Callees
import BlockLang.Proofs.LoweredTrees
import BlockLang.Source.Builder

namespace BlockLang

open Source Code Lowering

namespace Code

def Stm.call? : Stm → Option (Label × List Exp)
  | .move _ (.call f args) | .exp (.call f args) => some (f, args)
  | _ => none

lemma Stm.call?_move {x : Exp} (h : x.isCall = false) (d : Exp) : (Stm.move d x).call? = none := by
  cases x with
  | call f args => cases h
  | _ => rfl

lemma Stm.call?_of_isQuiet {s : Stm} (h : s.isQuiet = true) : s.call? = none := by
  cases s with
  | move d x =>
    cases d with
    | temp t => exact Stm.call?_move (Bool.not_eq_true' _ ▸ h) _
    | _ => cases h
  | exp x =>
    cases x with
    | call f args => cases h
    | _ => rfl
  | _ => rfl

lemma Callee.at_call {c : Callee} {ts : List Temp} {t : Temp} {i : Nat} {s : Stm}
    (hs : (c.code ts t)[i]? = some s) {f : Label} {args : List Exp} (hc : s.call? = some (f, args)) :
    s = .move (.temp t) (.call c.label (c.link :: ts.map .temp)) ∧
      ∀ n, c.oldFp = some n → ∃ j, i = j + 1 ∧ (c.code ts t)[j]? = some (saveFp n) := by
  cases ho : c.oldFp with
  | none =>
    rw [Callee.code, ho] at hs
    cases i with
    | zero =>
      refine ⟨(Option.some.inj hs).symm, fun n hn => ?_⟩
      cases hn
    | succ j => cases hs
  | some n =>
    rw [Callee.code, ho] at hs ⊢
    cases i with
    | zero =>
      obtain rfl := Option.some.inj hs
      cases hc
    | succ j =>
      cases j with
      | zero =>
        refine ⟨(Option.some.inj hs).symm, fun m hm => ?_⟩
        obtain rfl := Option.some.inj hm
        exact ⟨0, rfl, rfl⟩
      | succ j => cases hs

inductive SetUp (P : Callee → List Temp → Prop) : List Stm → Prop where
  | nil : SetUp P []
  | other {s : Stm} {code : List Stm} (h : s.call? = none) (hc : SetUp P code) : SetUp P (s :: code)
  | call {c : Callee} {ts : List Temp} {t : Temp} {code : List Stm} (h : P c ts)
    (hc : SetUp P code) : SetUp P (c.code ts t ++ code)

namespace SetUp

variable {P : Callee → List Temp → Prop} {code code' : List Stm}

lemma append (h : SetUp P code) (h' : SetUp P code') : SetUp P (code ++ code') := by
  induction h with
  | nil => exact h'
  | other h _ ih => exact .other h ih
  | call h _ ih =>
    rw [List.append_assoc]
    exact .call h ih

lemma single {s : Stm} (h : s.call? = none) : SetUp P [s] := .other h .nil

lemma gathers : Gathers (SetUp P) where
  nil := .nil
  append := append
  quiet h := single (Stm.call?_of_isQuiet h)

lemma move_mem {a x : Exp} (ha : a.Yields (SetUp P)) (hx : x.Yields (SetUp P)) :
    (Stm.move (.mem a) x).Yields (SetUp P) := by
  intro n
  rw [Stm.flat_move_mem]
  have hstore := Stm.call?_move (operand_not_isCall x n)
    (.mem ((a.operand (x.operand n).next).hold !x.isPure).value)
  exact ((gathers.hold ha _ _).append (hx n)).append (single hstore)

lemma at_call (h : SetUp P code) {i : Nat} {s : Stm} (hs : code[i]? = some s) {f : Label}
    {args : List Exp} (hc : s.call? = some (f, args)) :
    ∃ c ts t, P c ts ∧ s = .move (.temp t) (.call c.label (c.link :: ts.map .temp)) ∧
      ∀ n, c.oldFp = some n → ∃ j, i = j + 1 ∧ code[j]? = some (saveFp n) := by
  induction h generalizing i with
  | nil => simp at hs
  | other h _ ih =>
    cases i with
    | zero =>
      obtain rfl := Option.some.inj hs
      cases h.symm.trans hc
    | succ i =>
      obtain ⟨c, ts, t, hp, he, hbefore⟩ := ih hs
      refine ⟨c, ts, t, hp, he, fun n hn => ?_⟩
      obtain ⟨j, rfl, hj⟩ := hbefore n hn
      exact ⟨j + 1, rfl, hj⟩
  | @call c ts t code hp _ ih =>
    rcases Nat.lt_or_ge i (c.code ts t).length with hi | hi
    · rw [List.getElem?_append_left hi] at hs
      obtain ⟨he, hbefore⟩ := Callee.at_call hs hc
      refine ⟨c, ts, t, hp, he, fun n hn => ?_⟩
      obtain ⟨j, rfl, hj⟩ := hbefore n hn
      exact ⟨j, rfl, by rw [List.getElem?_append_left (Nat.lt_of_succ_lt hi)]; exact hj⟩
    · rw [List.getElem?_append_right hi] at hs
      obtain ⟨c', ts', t', hp', he, hbefore⟩ := ih hs
      refine ⟨c', ts', t', hp', he, fun n hn => ?_⟩
      obtain ⟨j, hj, hsave⟩ := hbefore n hn
      refine ⟨j + (c.code ts t).length, by omega, ?_⟩
      rw [List.getElem?_append_right (Nat.le_add_left ..), Nat.add_sub_cancel]
      exact hsave

end SetUp

end Code

namespace Lowering

def CalledWith (scope : Scope) (level : Nat) (is : List Item) (c : Callee) (ts : List Temp) : Prop :=
  ∃ n x args st st', .expr (.call n x args) ∈ is ∧
    (callee scope level n x).run st = .ok (c, st') ∧ ts.length = args.length

variable {scope : Scope} {level : Nat} {is : List Item}

lemma isPure_copyWords {dst src : Temp} {size : Int} {s : Stm} (h : s ∈ copyWords dst src size) :
    ∃ a x : Exp, a.isPure = true ∧ x.isPure = true ∧ s = .move (.mem a) x := by
  obtain ⟨i, -, rfl⟩ := List.mem_map.mp h
  have hpure : ∀ t : Temp, (Exp.offset (.temp t) i).isPure = true := fun _ => isPure_offset rfl i
  exact ⟨.offset (.temp dst) i, .mem (.offset (.temp src) i), hpure dst, hpure src, rfl⟩

lemma permits_setUp (scope : Scope) (level : Nat) (is : List Item) :
    Permits scope level (SetUp (CalledWith scope level is)) is where
  store e _ st st' r _ ha hr y hc hy := by
    cases hx : r.toExp with
    | mem a =>
      rw [hx] at hr
      exact SetUp.move_mem hr hy
    | temp t => exact SetUp.gathers.move_temp hc hy t
    | _ =>
      rw [hx] at ha
      cases ha
  copy e _ type _ _ dst src size s hs := by
    obtain ⟨a, x, ha, hx, rfl⟩ := isPure_copyWords hs
    exact SetUp.move_mem (SetUp.gathers.of_isPure ha) (SetUp.gathers.of_isPure hx)
  call n f args hm st st' c hc ts ht t := by
    rw [← List.append_nil (c.code ts t)]
    exact .call ⟨n, f, args, st, st', hm, hc, ht⟩ .nil

lemma setUp_returning {b : Expr} {st st' : State} {r : Fragment}
    (h : (expr scope level b).run st = .ok (r, st')) (n : Temp) :
    SetUp (CalledWith scope level b.items) ((returning r.toExp).flat n).code := by
  have hr := expr_yields SetUp.gathers b (permits_setUp scope level b.items) h
  rw [flat_returning]
  exact (SetUp.gathers.toExp hr n).append
    (SetUp.single (Stm.call?_move (operand_not_isCall _ n) (.mem (.name .framePointer))))

/-- Statement `i` calls the function with frame `g`, for a call among the parts of a function on
`level`. The statement before it saves the frame pointer in that frame. The callee gets the frame
pointer of the function around it, if there is one, and a temporary for each argument. -/
def CallsFunction (scope : Scope) (level : Nat) (is : List Item) (code : List Stm) (i : Nat)
    (g : Frame) : Prop :=
  ∃ (j : Nat) (t : Temp) (ts : List Temp) (n : Node) (x : String) (args : List Expr) (target : NodeId),
    .expr (.call n x args) ∈ is ∧ scope.tables.bindings[n.id]? = some target ∧
      scope.frames[target]? = some g ∧ ts.length = args.length ∧ i = j + 1 ∧
      code[j]? = some (.move (.mem (.binop .sub (.name .stackPointer) (.const (.ofInt g.oldFp))))
        (.name .framePointer)) ∧
      (g.level ≠ 1 → g.level - 1 ≤ level) ∧
      code[i]? = some (.move (.temp t) (.call g.label
        ((if g.level = 1 then .const 0 else .staticLink (level - (g.level - 1))) :: ts.map .temp)))

def CallsIntrinsic (is : List Item) (code : List Stm) (i : Nat) (k : Intrinsic) : Prop :=
  ∃ (t : Temp) (ts : List Temp) (n : Node) (x : String) (args : List Expr),
    .expr (.call n x args) ∈ is ∧ Intrinsic.ofName? x = some k ∧ ts.length = args.length ∧
      code[i]? = some (.move (.temp t) (.call k.label (.const 0 :: ts.map .temp)))

lemma calls_of_setUp {code : List Stm} (h : SetUp (CalledWith scope level is) code) {i : Nat} {s : Stm}
    (hs : code[i]? = some s) {f : Label} {args : List Exp} (hc : s.call? = some (f, args)) :
    (∃ (j : NodeId) (g : Frame), scope.frames[j]? = some g ∧ g.label = f ∧ CallsFunction scope level is code i g) ∨
      ∃ k : Intrinsic, k.label = f ∧ CallsIntrinsic is code i k := by
  obtain ⟨c, ts, t, ⟨n, x, es, st, st', hitem, hcallee, hlength⟩, rfl, hbefore⟩ := h.at_call hs hc
  obtain ⟨rfl, -⟩ := Prod.mk.inj (Option.some.inj hc)
  cases hb : scope.tables.bindings[n.id]? with
  | some target =>
    obtain ⟨g, hg, hlevel, rfl, -⟩ := (callee_bound_ok hb).mp hcallee
    obtain ⟨j, hj, hsave⟩ := hbefore g.oldFp rfl
    exact .inl ⟨target, g, hg, rfl, j, t, ts, n, x, es, target, hitem, hb, hg, hlength, hj, hsave,
      hlevel, hs⟩
  | none =>
    obtain ⟨k, hk, rfl, -⟩ := (callee_free_ok hb).mp hcallee
    exact .inr ⟨k, rfl, t, ts, n, x, es, hitem, hk, hlength, hs⟩

end Lowering

/-- Every call that compiled code makes is that of a compiled function or of an intrinsic, and is
set up for it. -/
theorem calls_are_set_up {p : Source.Program} {entry : String} {code : Code.Program}
    (hn : p.ids.Nodup) (hp : p.NamedApart) (hc : p.compile entry = .ok code) :
    ∃ layout, p.layout = .ok layout ∧ ∀ frame body, .code frame body ∈ code.chunks →
      ∃ outer n x ps type b, ⟨outer, .defn (.func n x ps type b)⟩ ∈ p.occurrences ∧
        layout.frames[n.id]? = some frame ∧
        ∀ i s f args, body.statements[i]? = some s → s.call? = some (f, args) →
          ((∃ g body', .code g body' ∈ code.chunks ∧ g.label = f) ∨ ∃ k : Intrinsic, k.label = f) ∧
          (∀ g body', .code g body' ∈ code.chunks → g.label = f →
            CallsFunction (p.scope layout) frame.level b.items body.statements i g) ∧
          ∀ k : Intrinsic, k.label = f → CallsIntrinsic b.items body.statements i k := by
  obtain ⟨layout, st, h⟩ := Source.Program.compile_ok.mp hc
  refine ⟨layout, h.layout_eq, fun frame body hm => ?_⟩
  obtain ⟨outer, n, x, ps, type, b, r, st₁, st₂, ho, hf, hr, -, rfl⟩ := h.code_origin hm
  refine ⟨outer, n, x, ps, type, b, ho, hf, fun i s f args hs hcall => ?_⟩
  rcases calls_of_setUp (setUp_returning hr st₂.nextTemp) hs hcall with
    ⟨j, g, hg, rfl, hcalls⟩ | ⟨k, rfl, hcalls⟩
  · refine ⟨.inl ?_, fun g' body' hm' he => ?_, fun k hk => ?_⟩
    · obtain ⟨body', hm'⟩ := h.code_of_frame hg
      exact ⟨g, body', hm', rfl⟩
    · obtain ⟨_, n', _, _, _, _, _, _, _, -, hg', -, -, -⟩ := h.code_origin hm'
      obtain rfl := Layout.label_inj h.layout_eq hn hp.distinct hg' hg he
      obtain rfl := Option.some.inj (hg.symm.trans hg')
      exact hcalls
    · exact (Layout.label_ne_intrinsic h.layout_eq hn hp hg k hk.symm).elim
  · refine ⟨.inr ⟨k, rfl⟩, fun g' body' hm' he => ?_, fun k' hk' => ?_⟩
    · obtain ⟨_, n', _, _, _, _, _, _, _, -, hg', -, -, -⟩ := h.code_origin hm'
      exact (Layout.label_ne_intrinsic h.layout_eq hn hp hg' k he).elim
    · have heq := Intrinsic.ofLabel?_label k'
      rw [hk', Intrinsic.ofLabel?_label k] at heq
      obtain rfl := Option.some.inj heq
      exact hcalls

/-! A call among the arguments of another one, both of a function inside the caller.
```text
fun outer(n: integer): integer = inner(inner(n)) where fun inner(k: integer): integer = k + n
fun main(): integer = print_int(outer(1))
```
-/

def nestedArguments : Build Source.Program := do
  let n ← Builder.param "n" .int
  let outer ← Builder.signature "outer" [n] .int
  let k ← Builder.param "k" .int
  let inner ← Builder.signature "inner" [k] .int
  let sum ← Builder.compute .add (← Builder.name k.ref) (← Builder.name n.ref)
  let twice ← Builder.call inner [← Builder.call inner [← Builder.name n.ref]]
  let outerBody ← Builder.whereDefs twice [Builder.func inner sum]
  let main ← Builder.signature "main" [] .int
  let mainBody ← Builder.callUnbound "print_int" [← Builder.call outer [← Builder.int 1]]
  Builder.finish [Builder.func outer outerBody, Builder.func main mainBody]

def Code.Stm.calleeAt? (body : Stm) (i : Nat) : Option Label :=
  (body.statements[i]?.bind Stm.call?).map Prod.fst

lemma Code.Stm.exists_of_calleeAt? {body : Stm} {i : Nat} {f : Label} (h : body.calleeAt? i = some f) :
    ∃ s args, body.statements[i]? = some s ∧ s.call? = some (f, args) := by
  obtain ⟨⟨_, args⟩, hcall, rfl⟩ := Option.map_eq_some_iff.mp h
  obtain ⟨s, hs, hcall⟩ := Option.bind_eq_some_iff.mp hcall
  exact ⟨s, args, hs, hcall⟩

def hasNestedCalls : List Chunk → Bool
  | [.code g _, .code _ body, .code _ body'] =>
    decide (body.calleeAt? 2 = some g.label ∧ body.calleeAt? 5 = some g.label ∧
      body'.calleeAt? 4 = some Intrinsic.printInt.label)
  | _ => false

lemma exists_of_hasNestedCalls {cs : List Chunk} (h : hasNestedCalls cs = true) :
    ∃ g inner frame body frame' body', cs = [.code g inner, .code frame body, .code frame' body'] ∧
      body.calleeAt? 2 = some g.label ∧ body.calleeAt? 5 = some g.label ∧
        body'.calleeAt? 4 = some Intrinsic.printInt.label := by
  unfold hasNestedCalls at h
  split at h
  · exact ⟨_, _, _, _, _, _, rfl, of_decide_eq_true h⟩
  · cases h

theorem calls_are_set_up_nested :
    ∃ p code layout g inner frame body frame' body' is is',
      Builder.run nestedArguments = .ok p ∧ p.ids.Nodup ∧ p.NamedApart ∧
      p.compile "main" = .ok code ∧ p.layout = .ok layout ∧
      code.chunks = [.code g inner, .code frame body, .code frame' body'] ∧
      CallsFunction (p.scope layout) frame.level is body.statements 2 g ∧
      CallsFunction (p.scope layout) frame.level is body.statements 5 g ∧
      CallsIntrinsic is' body'.statements 4 .printInt := by
  obtain ⟨p, hb, h⟩ : ∃ p, Builder.run nestedArguments = .ok p ∧
      (decide (p.ids.Nodup ∧ p.NamedApart) && (p.compile "main").toOption.any fun code =>
        hasNestedCalls code.chunks) = true :=
    exists_ok_of_any (by decide +kernel)
  obtain ⟨hp, h⟩ := Bool.and_eq_true_iff.mp h
  obtain ⟨hn, hp⟩ := of_decide_eq_true hp
  obtain ⟨code, hc, h⟩ := exists_ok_of_any h
  obtain ⟨layout, hl, hcalls⟩ := calls_are_set_up hn hp hc
  obtain ⟨g, inner, frame, body, frame', body', hchunks, h₂, h₅, h₄⟩ := exists_of_hasNestedCalls h
  obtain ⟨_, _, _, _, _, b, -, -, hbody⟩ := hcalls frame body (by simp [hchunks])
  obtain ⟨_, _, _, _, _, b', -, -, hbody'⟩ := hcalls frame' body' (by simp [hchunks])
  obtain ⟨_, _, hs₂, hc₂⟩ := Stm.exists_of_calleeAt? h₂
  obtain ⟨_, _, hs₅, hc₅⟩ := Stm.exists_of_calleeAt? h₅
  obtain ⟨_, _, hs₄, hc₄⟩ := Stm.exists_of_calleeAt? h₄
  have hg : .code g inner ∈ code.chunks := by simp [hchunks]
  exact ⟨p, code, layout, g, inner, frame, body, frame', body', b.items, b'.items, hb, hn, hp, hc, hl,
    hchunks, (hbody 2 _ _ _ hs₂ hc₂).2.1 g inner hg rfl, (hbody 5 _ _ _ hs₅ hc₅).2.1 g inner hg rfl,
    (hbody' 4 _ _ _ hs₄ hc₄).2.2 _ rfl⟩

end BlockLang
